import IocpRuntime.Http.ResponseEncoder
import IocpRuntime.Lib.Lines

namespace IocpRuntime.Proofs.ResponseLines
open Lib Lib.Lines Http

def written (headers : List HttpHeader) : List HttpHeader :=
  headers.filter fun header =>
    lowercase header.name ≠ octets "content-length" ∧ lowercase header.name ≠ octets "connection"

def fieldLine (header : HttpHeader) : Octets := header.name ++ octets ": " ++ header.value

def statusText (response : HttpResponse) : Octets :=
  octets "HTTP/1.1 " ++ octets (toString response.statusCode.toNat) ++ octets " " ++ reasonOf response

def framingLine (response : HttpResponse) : Octets :=
  if hasName response.headers (octets "transfer-encoding") then octets "Transfer-Encoding: chunked"
  else octets "Content-Length: " ++ octets (toString response.body.length)

def connectionLine (response : HttpResponse) : Octets :=
  if response.closeConnection then octets "Connection: close" else octets "Connection: keep-alive"

def serverText (serverName : Octets) : Octets := octets "Server: " ++ serverName

def headLines (serverName : Octets) (response : HttpResponse) : List Octets :=
  statusText response :: (written response.headers).map fieldLine ++
    (if hasName response.headers (octets "server") then [] else [serverText serverName]) ++
    [framingLine response, connectionLine response, []]

def fieldName (line : Octets) : Octets := lowercase (line.takeWhile (· ≠ 58))

@[simp] theorem clean_append : Clean (a ++ b) ↔ Clean a ∧ Clean b := List.forall_mem_append

theorem clean_octets (h : (octets text).all (fun c => c ≠ 13 ∧ c ≠ 10) = true) :
    Clean (octets text) :=
  forall_octets h

theorem token_octet : isTokenCharacter c = true → c ≠ 58 ∧ c ≠ 13 ∧ c ≠ 10 := by
  have hall : ∀ n : Fin 256, isTokenCharacter (UInt8.ofNat n) = true →
      UInt8.ofNat n ≠ 58 ∧ UInt8.ofNat n ≠ 13 ∧ UInt8.ofNat n ≠ 10 := by decide +kernel
  simpa using hall ⟨c.toNat, c.toNat_lt⟩

/-- A header that passes its check is one line, and its name ends at the colon. -/
theorem validateHeader_line (h : validateHeader header = .ok ()) :
    Clean (fieldLine header) ∧ fieldName (fieldLine header) = lowercase header.name := by
  unfold validateHeader at h
  repeat' first | split at h | cases h
  rename_i hn hv
  have ht : ∀ c ∈ header.name, c ≠ 58 ∧ c ≠ 13 ∧ c ≠ 10 := fun c hc =>
    token_octet (by simp at hn; exact hn c hc)
  have hc : Clean header.value := by
    intro c hc
    have hf : isForbidden c ≠ true := by simp at hv; simpa using hv c hc
    constructor <;> rintro rfl <;> exact hf (by decide)
  refine ⟨clean_append.mpr ⟨clean_append.mpr ⟨fun c hc => (ht c hc).2, clean_octets (by decide)⟩, hc⟩, ?_⟩
  rw [fieldName, fieldLine, List.append_assoc,
    List.takeWhile_append_of_pos (fun c hc => by simpa using (ht c hc).1)]
  simp [octets]

theorem headerLines_written (h : headerLines headers = .ok lines) :
    lines = (written headers).flatMap headerLine ∧
      ∀ header ∈ headers, validateHeader header = .ok () := by
  induction headers generalizing lines with
  | nil =>
    cases h
    exact ⟨rfl, by simp⟩
  | cons header headers ih =>
    obtain ⟨_, hv, hb⟩ := bind_ok h
    obtain ⟨rest, hr, ho⟩ := bind_ok hb
    obtain ⟨rfl, hc⟩ := ih hr
    refine ⟨?_, List.forall_mem_cons.mpr ⟨hv, hc⟩⟩
    dsimp only at ho
    split at ho <;> rename_i hn <;> rw [← Except.ok.inj ho]
    · rcases hn with hn | hn <;> simp [written, hn]
    · simp [written, not_or.mp hn]

theorem decimal_clean (n : Nat) : Clean (octets (toString n)) := by
  intro c hc
  obtain ⟨d, hd, rfl⟩ := List.mem_map.mp hc
  have hdigit := Nat.isDigit_of_mem_toDigits (by decide) (by decide) (Nat.toList_repr ▸ hd)
  simp only [Char.isDigit, Bool.and_eq_true, decide_eq_true_eq] at hdigit
  have hn : 48 ≤ d.toNat ∧ d.toNat ≤ 57 := hdigit
  constructor <;> intro he <;> have := congrArg UInt8.toNat he <;> simp at this <;> omega

theorem split_fields {headers : List HttpHeader} (h : ∀ header ∈ headers, Clean (fieldLine header))
    (rest : Octets) :
    split (headers.flatMap headerLine ++ rest) = headers.map fieldLine ++ split rest := by
  induction headers with
  | nil => rfl
  | cons header headers ih =>
    obtain ⟨hc, hcs⟩ := List.forall_mem_cons.mp h
    rw [List.map_cons, List.cons_append, ← ih hcs, ← split_line hc]
    simp [lineThen, headerLine, fieldLine, octets]

theorem split_trailing (serverName : Octets) (response : HttpResponse) :
    split (trailingLines serverName response) =
      (if hasName response.headers (octets "server") then [] else split (serverText serverName)) ++
        [framingLine response, connectionLine response, [], []] := by
  have hc : Clean (connectionLine response) := by
    unfold connectionLine
    split <;> exact clean_octets (by decide)
  have hf : Clean (framingLine response) := by
    unfold framingLine
    split
    · exact clean_octets (by decide)
    · exact clean_append.mpr ⟨clean_octets (by decide), decimal_clean _⟩
  have ht : trailingLines serverName response =
      (if hasName response.headers (octets "server") then []
        else serverText serverName ++ 13 :: 10 :: []) ++
        lineThen (framingLine response) (lineThen (connectionLine response) [13, 10]) := by
    unfold trailingLines framingLine connectionLine serverText lineThen
    split <;> split <;> split <;> simp [octets]
  have hs := @split_line _ (lineThen (connectionLine response) [13, 10]) hf
  rw [split_line hc] at hs
  rw [ht]
  split
  · exact hs
  · rw [List.append_assoc, List.cons_append, List.cons_append, List.nil_append, split_break, hs]
    rfl

/-- The lines of the head, the server's among them. -/
theorem head_lines (h : Encoded options response encoded lines) :
    split encoded.head = statusText response :: ((written response.headers).map fieldLine ++
        ((if hasName response.headers (octets "server") then []
          else split (serverText options.serverName)) ++
        [framingLine response, connectionLine response, [], []])) ∧
      Clean (statusText response) ∧
      ∀ header ∈ response.headers, Clean (fieldLine header) ∧
        fieldName (fieldLine header) = lowercase header.name := by
  obtain ⟨rfl, hv⟩ := headerLines_written h.checked
  have hl := fun header hh => validateHeader_line (hv header hh)
  have hs : Clean (statusText response) := by
    simp only [statusText, clean_append]
    exact ⟨⟨⟨clean_octets (by decide), decimal_clean _⟩, clean_octets (by decide)⟩,
      fun c hc => ⟨fun he => h.reason.1 (he ▸ hc), fun he => h.reason.2 (he ▸ hc)⟩⟩
  refine ⟨?_, hs, hl⟩
  have hw : ∀ header ∈ written response.headers, Clean (fieldLine header) :=
    fun header hh => (hl header (List.mem_of_mem_filter hh)).1
  rw [h.head, ← split_trailing, ← split_fields hw, ← split_line hs]
  simp [lineThen, statusLine, statusText, octets]

theorem split_server (serverName : Octets) :
    split (serverText serverName) = (split serverName).modifyHead (octets "Server: " ++ ·) :=
  split_text (clean_octets (by decide)) serverName

theorem serverText_break : [13, 10] <:+: serverText serverName ↔ [13, 10] <:+: serverName := by
  rw [← not_iff_not, ← split_single, ← split_single, split_server]
  cases hs : split serverName with
  | nil => exact absurd hs (split_ne_nil _)
  | cons line lines => simp [serverText]

/-- The lines of the head are those of `headLines`, unless the server name breaks a line. -/
theorem head_splits_iff (options : HttpResponseEncoderOptions) (response : HttpResponse)
    (encoded : EncodedHttpResponse) (hencoded : encode options response = .ok encoded) :
    (split encoded.head = headLines options.serverName response ++ [[]] ↔
      hasName response.headers (octets "server") = true ∨ ¬ [13, 10] <:+: options.serverName) ∧
    Clean (statusText response) ∧ ∀ header ∈ response.headers, Clean (fieldLine header) := by
  obtain ⟨lines, hwhole⟩ := encode_encoded hencoded
  obtain ⟨hsplit, hstatus, hfields⟩ := head_lines hwhole
  refine ⟨?_, hstatus, fun header hh => (hfields header hh).1⟩
  rw [hsplit, ← serverText_break, ← split_single, headLines]
  cases hasName response.headers (octets "server") with
  | true => simp
  | false =>
    simp
    exact @List.append_left_inj _ _ [serverText options.serverName] _

def page : HttpResponse where
  headers := [⟨octets "Content-Type", octets "text/html"⟩, ⟨octets "SERVER", octets "board"⟩,
    ⟨octets "content-LENGTH", octets "7"⟩]
  body := octets "hello"

def forgedName : HttpResponseEncoderOptions :=
  { serverName := octets "iocp\r\nContent-Length: 0" }

theorem head_splits_iff_page : ∃ encoded, encode forgedName page = .ok encoded ∧
    split encoded.head = headLines forgedName.serverName page ++ [[]] := by
  have hok : encode forgedName page = .ok ⟨_, _, _⟩ := rfl
  exact ⟨_, hok, (head_splits_iff forgedName page _ hok).1.mpr (.inl (by decide))⟩

theorem forged_name_splits : createEncoder forgedName = .ok forgedName ∧
    ∃ encoded, encode forgedName {} = .ok encoded ∧
      split encoded.head ≠ headLines forgedName.serverName {} ++ [[]] :=
  ⟨by decide, ⟨_, _, _⟩, rfl, by decide +kernel⟩

def named (name : Octets) (lines : List Octets) : List Octets :=
  lines.filter (fun line => fieldName line = name)

theorem named_eq_nil : named name lines = [] ↔ ∀ line ∈ lines, fieldName line ≠ name := by
  simp [named, List.filter_eq_nil_iff]

/-- One framing header, and one Connection header that says whether the connection closes. -/
structure Framed (response : HttpResponse) (lines : List Octets) : Prop where
  framing :
    (named (octets "content-length") lines =
        [octets "Content-Length: " ++ octets (toString response.body.length)] ∧
      named (octets "transfer-encoding") lines = []) ∨
    ∃ line, named (octets "transfer-encoding") lines = [line] ∧
      named (octets "content-length") lines = []
  connection : named (octets "connection") lines = [connectionLine response]

theorem Framed.coded_once (h : Framed response lines) :
    (named (octets "transfer-encoding") lines).length ≤ 1 := by
  rcases h.framing with ⟨-, hn⟩ | ⟨line, hn, -⟩ <;> simp [hn]

/-- The lines behind the status line that carry one of the names the encoder frames with. -/
theorem named_lines (h : Encoded options response encoded lines) (name : Octets)
    (hn : name ≠ octets "server") :
    named name (split encoded.head).tail = named name ((written response.headers).map fieldLine) ++
        ((if hasName response.headers (octets "server") then []
          else named name (split options.serverName).tail) ++
        named name [framingLine response, connectionLine response, [], []]) := by
  have hf : ∀ line, fieldName (octets "Server: " ++ line) = octets "server" := fun _ => rfl
  rw [(head_lines h).1, List.tail_cons, named, List.filter_append, List.filter_append, split_server]
  cases hs : split options.serverName with
  | nil => exact absurd hs (split_ne_nil _)
  | cons line lines => split <;> simp [named, hf, Ne.symm hn]

/-- The encoder does not copy the headers it writes itself, but any Transfer-Encoding header. -/
theorem named_fields (h : Encoded options response encoded lines) :
    named (octets "content-length") ((written response.headers).map fieldLine) = [] ∧
      named (octets "connection") ((written response.headers).map fieldLine) = [] ∧
      (named (octets "transfer-encoding") ((written response.headers).map fieldLine) = [] ↔
        hasName response.headers (octets "transfer-encoding") = false) := by
  have hn : ∀ name, named name ((written response.headers).map fieldLine) = [] ↔
      ∀ header ∈ response.headers, lowercase header.name ≠ octets "content-length" →
        lowercase header.name ≠ octets "connection" → lowercase header.name ≠ name := by
    intro name
    rw [named_eq_nil, List.forall_mem_map]
    simp only [written, List.mem_filter, decide_eq_true_eq, and_imp]
    refine forall₂_congr fun header hh => ?_
    rw [((head_lines h).2.2 header hh).2]
  refine ⟨(hn _).mpr fun _ _ hl _ => hl, (hn _).mpr fun _ _ _ hc => hc, ?_⟩
  rw [hn, hasName, List.any_eq_false]
  refine forall₂_congr fun header _ => ⟨fun hne he => ?_, fun hne _ _ he => hne (by simp [he])⟩
  rw [beq_iff_eq] at he
  exact hne (by rw [he]; decide) (by rw [he]; decide) he

theorem named_own (response : HttpResponse) :
    let own := [framingLine response, connectionLine response, [], []]
    let coded := hasName response.headers (octets "transfer-encoding")
    named (octets "content-length") own = (if coded then [] else [framingLine response]) ∧
      named (octets "transfer-encoding") own = (if coded then [framingLine response] else []) ∧
      named (octets "connection") own = [connectionLine response] := by
  have hf : fieldName (framingLine response) =
      if hasName response.headers (octets "transfer-encoding") then octets "transfer-encoding"
      else octets "content-length" := by
    unfold framingLine
    split <;> rfl
  have hc : fieldName (connectionLine response) = octets "connection" := by
    unfold connectionLine
    split <;> rfl
  have hn : fieldName [] = [] := rfl
  simp only [named, List.filter_cons, hf, hc, hn]
  cases hasName response.headers (octets "transfer-encoding") <;> exact ⟨rfl, rfl, rfl⟩

/-- A response is framed once, unless the handler set a Transfer-Encoding header or the server name
breaks into one. -/
theorem framed_iff (options : HttpResponseEncoderOptions) (response : HttpResponse)
    (encoded : EncodedHttpResponse) (hencoded : encode options response = .ok encoded) :
    Framed response (split encoded.head).tail ↔
      hasName response.headers (octets "transfer-encoding") = false ∧
      (hasName response.headers (octets "server") = true ∨
        ∀ line ∈ (split options.serverName).tail, fieldName line ≠ octets "content-length" ∧
          fieldName line ≠ octets "transfer-encoding" ∧ fieldName line ≠ octets "connection") := by
  obtain ⟨_, hwhole⟩ := encode_encoded hencoded
  obtain ⟨hlength, hconnection, hcopied⟩ := named_fields hwhole
  obtain ⟨hl, ht, hc⟩ := named_own response
  have hframed : Framed response (split encoded.head).tail ↔ _ ∧ _ :=
    ⟨fun h => ⟨h.1, h.2⟩, fun h => ⟨h.1, h.2⟩⟩
  have hlines : (∀ line ∈ (split options.serverName).tail, fieldName line ≠ octets "content-length" ∧
      fieldName line ≠ octets "transfer-encoding" ∧ fieldName line ≠ octets "connection") ↔
      named (octets "content-length") (split options.serverName).tail = [] ∧
      named (octets "transfer-encoding") (split options.serverName).tail = [] ∧
      named (octets "connection") (split options.serverName).tail = [] := by
    simp only [named_eq_nil]
    exact ⟨fun h => ⟨fun l hl => (h l hl).1, fun l hl => (h l hl).2.1, fun l hl => (h l hl).2.2⟩,
      fun h l hl => ⟨h.1 l hl, h.2.1 l hl, h.2.2 l hl⟩⟩
  rw [hframed, hlines, named_lines hwhole _ (by decide), named_lines hwhole _ (by decide),
    named_lines hwhole _ (by decide), hlength, hconnection, hl, ht, hc]
  cases hcoded : hasName response.headers (octets "transfer-encoding") with
  | true =>
    -- the handler's line and the encoder's own
    have htwice := mt hcopied.mp (by simp [hcoded])
    simp [htwice, List.append_eq_singleton_iff]
  | false =>
    have hframing : framingLine response =
        octets "Content-Length: " ++ octets (toString response.body.length) := by
      simp [framingLine, hcoded]
    rw [hcopied.mpr hcoded, hframing]
    cases hasName response.headers (octets "server") <;> simp [and_assoc]

theorem framed_iff_page : ∃ encoded, encode forgedName page = .ok encoded ∧
    Framed page (split encoded.head).tail := by
  have hok : encode forgedName page = .ok ⟨_, _, _⟩ := rfl
  exact ⟨_, hok, (framed_iff forgedName page _ hok).mpr ⟨by decide, .inl (by decide)⟩⟩

def streamed : HttpResponse where
  headers := [⟨octets "Transfer-Encoding", octets "chunked"⟩,
    ⟨octets "Content-Type", octets "text/plain; charset=utf-8"⟩]
  body := octets "0\r\n\r\n"

set_option maxRecDepth 1000 in
theorem streamed_twice : ∃ encoded, encode {} streamed = .ok encoded ∧
    ¬ Framed streamed (split encoded.head).tail :=
  ⟨⟨_, _, _⟩, rfl, fun hframed => absurd hframed.coded_once (by decide +kernel)⟩

end IocpRuntime.Proofs.ResponseLines
