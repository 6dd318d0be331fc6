import IocpRuntime.Proofs.ParserSafety

namespace IocpRuntime.Proofs.ParserSegments
open Lib Lib.Lines Buffer Http HttpRequestParser ParserSteps ParserSafety Relation

variable {r : HttpRequestParser}
  {options : HttpParserOptions}

def call (input : BufferSequence) (p : HttpRequestParser) : HttpRequestParser × Outcome :=
  match p.parse input with
  | (q, .returned result) =>
    if result.status = .headersComplete then q.parse input else (q, .returned result)
  | out => out

section Calls
/-- A turn that another round follows, in its own call or in the next. -/
def Leads (turn : Turn) (q : HttpRequestParser) : Prop :=
  turn = .next q ∨ ∃ result, turn = .done q result ∧ result.status = .headersComplete

def Moves (input : BufferSequence) (p q : HttpRequestParser) : Prop := Leads (p.step input) q

inductive Stopped (input : BufferSequence) (p : HttpRequestParser) :
    HttpRequestParser × Outcome → Prop
  | returned {q : HttpRequestParser} {result : HttpParseResult}
      (last : p.step input = .done q result) (status : result.status ≠ .headersComplete) :
      Stopped input p (q, .returned result)
  | thrown {q : HttpRequestParser} {e : Thrown} (last : p.step input = .thrown q e) :
      Stopped input p (q, .thrown e)

theorem announced (h : Live input p)
    (hst : p.step input = .done q result) (hs : result.status = .headersComplete) :
    Live input q ∧ p.scanOffset + 2 ≤ q.scanOffset ∧ Moved p q ∧ ¬ Beyond p ∧ Beyond q := by
  have ht := h.turned
  rw [hst] at ht
  cases ht with
  | done _ sound inside said =>
    rw [hs] at said
    cases said with
    | announces live forward moved head body =>
      exact ⟨⟨sound, live, inside⟩, forward, moved, head, body⟩

theorem moves_live (h : Live input p) (hm : Moves input p q) :
    Live input q ∧ Moved p q ∧ p.scanOffset ≤ q.scanOffset := by
  rcases hm with hg | ⟨result, hst, hs⟩
  · refine ⟨h.goes hg, ?_⟩
    have ht := h.turned
    rw [hg] at ht
    cases ht with
    | next _ _ _ progress _ moved =>
      refine ⟨moved, ?_⟩
      rcases progress with hp | ⟨-, -, hp⟩
      · exact Nat.le_trans (Nat.le_add_right _ _) hp
      · exact hp.ge
  · obtain ⟨hl, hf, hmo, -, -⟩ := announced h hst hs
    exact ⟨hl, hmo, Nat.le_trans (Nat.le_add_right _ _) hf⟩

theorem comes_live (h : Live input p) (hr : ReflTransGen (Moves input) p q) : Live input q := by
  induction hr with
  | refl => exact h
  | tail _ hm ih => exact (moves_live ih hm).1

/-- Behind the head no header result is left to return. -/
theorem stays_beyond (h : Live input p) (hb : Beyond p) (hr : ReflTransGen (Goes input) p q) :
    Beyond q := by
  induction hr with
  | refl => exact hb
  | tail hr hg ih => exact (moves_live (h.reaches hr) (Or.inl hg)).2.1.later ih

theorem goes_moves (hr : ReflTransGen (Goes input) p q) : ReflTransGen (Moves input) p q :=
  ReflTransGen.mono (fun _ _ hg => Or.inl hg) _ _ hr

theorem call_ends (h : Live input p) :
    ∃ q, ReflTransGen (Moves input) p q ∧ Stopped input q (call input p) := by
  obtain ⟨q, hr, he⟩ := parse_ends h
  have hq := h.reaches hr
  have hm := goes_moves hr
  unfold call
  generalize p.parse input = out at he
  cases he with
  | thrown last => exact ⟨q, hm, .thrown last⟩
  | @returned r result last =>
    dsimp only
    by_cases hs : result.status = .headersComplete
    · obtain ⟨hl, -, -, -, hb⟩ := announced hq last hs
      obtain ⟨t, ha, hend⟩ := parse_ends hl
      have hall := (hm.tail (Or.inr ⟨result, last, hs⟩)).trans (goes_moves ha)
      rw [if_pos hs]
      refine ⟨t, hall, ?_⟩
      generalize r.parse input = out at hend
      cases hend with
      | thrown last' => exact .thrown last'
      | returned last' =>
        refine .returned last' fun hs' => ?_
        have hh := (announced (hl.reaches ha) last' hs').2.2.2.1
        exact hh (stays_beyond hl hb ha)
    · rw [if_neg hs]
      exact ⟨q, hm, .returned last hs⟩

theorem moves_unique : Relator.RightUnique (Moves input) := by
  rintro p q r (hq | ⟨_, hq, -⟩) (hr | ⟨_, hr, -⟩)
  all_goals cases hq.symm.trans hr
  all_goals rfl

theorem Stopped.not_moves (h : Stopped input p out) : ¬ Moves input p q := by
  rintro (hg | ⟨result, hst, hs⟩)
  · cases h with
    | returned last _ => cases last.symm.trans hg
    | thrown last => cases last.symm.trans hg
  · cases h with
    | returned last status =>
      cases last.symm.trans hst
      exact status hs
    | thrown last => cases last.symm.trans hst

/-- The last round decides what the calls come to. -/
theorem call_eq (h : Live input p)
    (hr : ReflTransGen (Moves input) p q) (hs : Stopped input q out) : call input p = out := by
  obtain ⟨q', hr', hs'⟩ := call_ends h
  cases ends_same moves_unique hr hr' (fun _ => hs.not_moves) (fun _ => hs'.not_moves)
  generalize call input p = out' at hs'
  cases hs with
  | returned last _ =>
    cases hs' with
    | returned last' _ =>
      cases last.symm.trans last'
      rfl
    | thrown last' => cases last.symm.trans last'
  | thrown last =>
    cases hs' with
    | returned last' _ => cases last.symm.trans last'
    | thrown last' =>
      cases last.symm.trans last'
      rfl

/-- The calls come to the same from any later round. -/
theorem call_later (h : Live input p) (hr : ReflTransGen (Moves input) p q) :
    call input p = call input q := by
  obtain ⟨r, hr', hs⟩ := call_ends (comes_live h hr)
  exact call_eq h (hr.trans hr') hs

theorem call_step (hp : Live input p) (hq : Live input q) (h : p.step input = q.step input) :
    call input p = call input q := by
  cases hst : q.step input with
  | next r =>
    rw [call_later hp (.single (Or.inl (h.trans hst))), call_later hq (.single (Or.inl hst))]
  | thrown r e => rw [call_eq hp .refl (.thrown (h.trans hst)), call_eq hq .refl (.thrown hst)]
  | done r result =>
    by_cases hs : result.status = .headersComplete
    · rw [call_later hp (.single (Or.inr ⟨_, h.trans hst, hs⟩)),
        call_later hq (.single (Or.inr ⟨_, hst, hs⟩))]
    · rw [call_eq hp .refl (.returned (h.trans hst) hs), call_eq hq .refl (.returned hst hs)]

end Calls

section Lines
variable {p q : HttpRequestParser}

/-- What a line does to the parser that has read it, where another round follows. -/
inductive Took (p : HttpRequestParser) (line : Octets) : HttpRequestParser → Prop
  | request {request : HttpRequest} (state : p.state = .requestLine)
      (parsed : parseRequestLine p.request line = .ok request) :
      Took p line { p with request := request, state := .headers }
  | field {request : HttpRequest} (state : p.state = .headers) (text : line ≠ [])
      (parsed : parseHeaderLine p.request line = .ok request) :
      Took p line { p with
        headerBytes := p.headerBytes + (line.length + 2)
        request := request }
  | head {r : HttpRequestParser} (state : p.state = .headers) (empty : line = [])
      (finalized : finalizeHeaders { p with
        headerBytes := p.headerBytes + (line.length + 2) } = .ok r) :
      Took p line { r with
        bodyOffset := r.scanOffset
        expectContinueSent := r.expectContinueSent || (r.expectContinue && !r.expectContinueSent)
        state := if r.hasChunked then .chunkHead else .body }
  | size {size : Nat} (state : p.state = .chunkHead)
      (parsed : parseHexSize (skipChunkExtension line) = some size) :
      Took p line { p with
        chunkSize := size
        chunkBodyOffset := p.scanOffset
        state := if size = 0 then .chunkTrailer else .chunkBody }
  | trailer (state : p.state = .chunkTrailer) (text : line ≠ []) : Took p line p
  | last (state : p.state = .chunkTrailer) (empty : line = []) :
      Took p line { p with state := .chunkEnd }

theorem not_leads_fail : ¬ Leads (p.fail error) q := by
  rintro (hc | ⟨result, hc, hs⟩)
  · cases hc
  · cases hc
    cases hs

theorem Leads.next (h : Leads (.next r) q) : q = r := by
  rcases h with hc | ⟨result, hc, -⟩
  · cases hc
    rfl
  · cases hc

theorem not_leads_waits : ¬ Leads (.done p {}) q := by
  rintro (hc | ⟨result, hc, hs⟩)
  · cases hc
  · cases hc
    cases hs

theorem not_leads_taken (h : p.contentLength = 0 ∨ p.hasChunked = true) :
    ¬ Leads (p.complete input) q := by
  rw [complete_taken h]
  rintro (hc | ⟨result, hc, hs⟩)
  · cases hc
  · cases hc
    cases hs

theorem leads_enterBody (h : Leads (r.enterBody input) q) :
    q = { r with
      bodyOffset := r.scanOffset
      expectContinueSent := r.expectContinueSent || (r.expectContinue && !r.expectContinueSent)
      state := if r.hasChunked then .chunkHead else .body } := by
  unfold enterBody at h
  dsimp only at h
  by_cases hz : (!r.hasChunked && r.contentLength == 0) = true
  · rw [if_pos hz] at h
    simp only [Bool.and_eq_true, beq_iff_eq] at hz
    refine absurd h (not_leads_taken ?_)
    exact Or.inl hz.2
  rw [if_neg hz] at h
  split at h
  · rcases h with hc | ⟨result, hc, -⟩
    · cases hc
    · cases hc
      rfl
  · exact h.next

theorem took (hat : AtLine p)
    (h : Leads (p.onLine input { status := .complete, value := line }) q) : Took p line q := by
  unfold onLine at h
  rcases hat with hs | hs | hs | hs
  all_goals rw [hs] at h; dsimp only at h
  · unfold onRequestLine at h
    dsimp only at h
    split at h
    · exact absurd h not_leads_fail
    · rename_i request hp
      cases h.next
      exact .request hs hp
  · unfold onHeaderLine takeHeaderLine at h
    dsimp only at h
    split at h
    · exact absurd h not_leads_fail
    split at h
    · rename_i he
      split at h
      · exact absurd h not_leads_fail
      · rename_i r hfin
        cases leads_enterBody h
        exact .head hs he hfin
    split at h
    · exact absurd h not_leads_fail
    split at h
    · exact absurd h not_leads_fail
    · rename_i ht _ _ request hp
      cases h.next
      exact .field hs ht hp
  · unfold onChunkHead at h
    dsimp only at h
    split at h
    · exact absurd h not_leads_fail
    · rename_i size hp
      cases h.next
      exact .size hs hp
  · unfold onChunkTrailer at h
    dsimp only at h
    cases h.next
    split
    · rename_i he
      exact .last hs he
    · rename_i ht
      exact .trailer hs ht

theorem Took.offset (h : Took p line q) : q.scanOffset = p.scanOffset := by
  cases h with
  | request | field | size | trailer | last => rfl
  | head _ _ fin => exact (finalized fin).scanOffset

/-- A trailer line beyond the limit, which `Parse` takes for the empty one. -/
def OverLong (bytes : Octets) (p : HttpRequestParser) : Prop :=
  p.state = .chunkTrailer ∧ scanned p bytes = .tooLong

/-- The error of any other line beyond the limit. -/
def tooLongError : ParserState → HttpParseError
  | .requestLine => .requestLineTooLarge
  | .headers => .headerTooLarge
  | _ => .invalidContentLength

section Verdicts
variable (h : Live input p) (hat : AtLine p)
include h hat

theorem step_paused (hsc : scanned p input.bytes = .paused n) :
    p.step input = .done { p with scanOffset := p.lineStart + n } {} := by
  rw [step_line hat h.sound.line h.inside, hsc]
  unfold onLine found
  rcases hat with hs | hs | hs | hs
  all_goals dsimp only; rw [hs]; rfl

theorem step_malformed (hsc : scanned p input.bytes = .malformed) :
    p.step input = p.fail .invalidLineEnding := by
  rw [step_line hat h.sound.line h.inside, hsc]
  unfold onLine found
  rcases hat with hs | hs | hs | hs
  all_goals dsimp only; rw [hs]; rfl

theorem step_tooLong (hsc : scanned p input.bytes = .tooLong) (ht : p.state ≠ .chunkTrailer) :
    p.step input = p.fail (tooLongError p.state) := by
  rw [step_line hat h.sound.line h.inside, hsc]
  unfold onLine found
  rcases hat with hs | hs | hs | hs
  · dsimp only; rw [hs]; rfl
  · dsimp only; rw [hs]; rfl
  · dsimp only; rw [hs]; rfl
  · exact absurd hs ht

end Verdicts

theorem step_overLong (h : Live input p) (ho : OverLong input.bytes p) :
    p.step input = .next { p with state := .chunkEnd } := by
  obtain ⟨hs, hsc⟩ := ho
  rw [step_line (Or.inr (Or.inr (Or.inr hs))) h.sound.line h.inside, hsc]
  unfold onLine found
  dsimp only
  rw [hs]
  rfl

/-- A round on a line goes on behind the line, or at an over-long trailer. -/
theorem moves_line (h : Live input p) (hat : AtLine p) (hm : Moves input p q) :
    (∃ n, scanned p input.bytes = .line n ∧ Took (found p input.bytes (.line n)).1
        (slice input.bytes p.lineStart (p.lineStart + n)) q) ∨
      (OverLong input.bytes p ∧ q = { p with state := .chunkEnd }) := by
  unfold Moves at hm
  cases hs : scanned p input.bytes with
  | paused n =>
    rw [step_paused h hat hs] at hm
    exact absurd hm not_leads_waits
  | malformed =>
    rw [step_malformed h hat hs] at hm
    exact absurd hm not_leads_fail
  | tooLong =>
    by_cases ht : p.state = .chunkTrailer
    · rw [step_overLong h ⟨ht, hs⟩] at hm
      exact Or.inr ⟨⟨ht, hs⟩, hm.next⟩
    · rw [step_tooLong h hat hs ht] at hm
      exact absurd hm not_leads_fail
  | line n =>
    rw [step_line hat h.sound.line h.inside, hs] at hm
    exact Or.inl ⟨n, rfl, took hat hm⟩

end Lines

section Prefixes
variable {u w : BufferSequence} {p q : HttpRequestParser}

theorem live_extend (h : Live u p) (hu : u.bytes <+: w.bytes) : Live w p :=
  ⟨h.sound, h.live, Nat.le_trans h.inside hu.length_le⟩

theorem enterBody_input (u w : BufferSequence) (p : HttpRequestParser) :
    p.enterBody u = p.enterBody w := by
  unfold enterBody
  dsimp only
  by_cases hz : (!p.hasChunked && p.contentLength == 0) = true
  · rw [if_pos hz, if_pos hz]
    simp only [Bool.and_eq_true, beq_iff_eq] at hz
    refine (complete_taken ?_).trans (complete_taken ?_).symm
    · exact Or.inl hz.2
    · exact Or.inl hz.2
  · rw [if_neg hz, if_neg hz]

/-- Once the line is read, the input does not matter. -/
theorem onLine_input : p.onLine u line = p.onLine w line := by
  unfold onLine onHeaderLine takeHeaderLine
  simp only [enterBody_input u w]

section

variable (h : Live u p) (hu : u.bytes <+: w.bytes)
include h hu

theorem drop_extend : ∃ more, w.bytes.drop p.scanOffset = u.bytes.drop p.scanOffset ++ more := by
  obtain ⟨more, hm⟩ := hu
  exact ⟨more, by rw [← hm, List.drop_append_of_le_length h.inside]⟩

theorem scanned_extend
    (hp : ∀ n, scanned p u.bytes ≠ .paused n) : scanned p w.bytes = scanned p u.bytes := by
  obtain ⟨more, hm⟩ := drop_extend h hu
  unfold scanned at hp ⊢
  rw [hm]
  exact scan_append hp

theorem found_extend :
    found p w.bytes (scanned p u.bytes) = found p u.bytes (scanned p u.bytes) := by
  cases hs : scanned p u.bytes with
  | paused | malformed | tooLong => rfl
  | line n =>
    obtain ⟨-, hto⟩ := scanned_line h.sound.line h.inside hs
    simp only [found]
    rw [slice_extend hu (by omega)]

theorem onBody_extends (hs : p.state = .body) :
    p.onBody u = .done p {} ∨ p.onBody w = p.onBody u := by
  obtain ⟨hc, hl, -⟩ := (shape_body hs).mp h.sound.shape
  have hle := hu.length_le
  unfold onBody
  rw [BufferSequence.size_eq, BufferSequence.size_eq]
  by_cases hmax : p.bodyOffset > 2 ^ 64 - 1 - p.contentLength
  · rw [if_pos hmax, if_pos hmax]
    exact Or.inr rfl
  rw [if_neg hmax, if_neg hmax]
  by_cases hlt : u.bytes.length < p.bodyOffset + p.contentLength
  · rw [if_pos hlt]
    exact Or.inl rfl
  · rw [if_neg hlt, if_neg (by omega), complete_copied hl hc (by omega),
      complete_copied hl hc (by omega), slice_extend hu (by omega)]
    exact Or.inr rfl

theorem onChunkBody_extends (hs : p.state = .chunkBody) :
    p.onChunkBody u = .done p {} ∨ p.onChunkBody w = p.onChunkBody u := by
  have hw := live_extend h hu
  have hle := hu.length_le
  rcases Nat.lt_or_ge (p.chunkBodyOffset + p.chunkSize + 2) (2 ^ 64) with hf | ho
  · rw [chunkBody_fits h.sound hs h.inside hf, chunkBody_fits hw.sound hs hw.inside hf]
    by_cases hlt : u.bytes.length < p.chunkBodyOffset + p.chunkSize + 2
    · rw [if_pos hlt]
      exact Or.inl rfl
    · have hd : chunkTaken p w.bytes = chunkTaken p u.bytes := by
        unfold chunkTaken
        rw [slice_extend hu (by omega)]
      have hlt' : ¬ w.bytes.length < p.chunkBodyOffset + p.chunkSize + 2 := by omega
      rw [if_neg hlt, if_neg hlt', hd]
      exact Or.inr rfl
  · rw [chunkBody_overflows h.sound hs h.inside ho, chunkBody_overflows hw.sound hs hw.inside ho]
    by_cases hlt : u.bytes.length < p.chunkBodyOffset + p.chunkSize + 2 - 2 ^ 64
    · rw [if_pos hlt]
      exact Or.inl rfl
    · have hlt' : ¬ w.bytes.length < p.chunkBodyOffset + p.chunkSize + 2 - 2 ^ 64 := by omega
      rw [if_neg hlt, if_neg hlt']
      exact Or.inr rfl

/-- A round on a part of the input waits, or does what it does on the whole. -/
theorem step_extends :
    (∃ q, Paused u.bytes p q ∧ p.step u = .done q {}) ∨ p.step w = p.step u := by
  by_cases hat : AtLine p
  · by_cases hp : ∃ n, scanned p u.bytes = .paused n
    · obtain ⟨n, hsc⟩ := hp
      exact Or.inl ⟨_, .line hat hsc, step_paused h hat hsc⟩
    · have hw := live_extend h hu
      rw [step_line hat h.sound.line h.inside, step_line hat hw.sound.line hw.inside,
        scanned_extend h hu (fun n hn => hp ⟨n, hn⟩), found_extend h hu, onLine_input]
      exact Or.inr rfl
  rcases h.data hat with hs | hs | hs
  · rw [step_body hs, step_body hs]
    exact (onBody_extends h hu hs).imp_left fun hb => ⟨p, .data hat, hb⟩
  · rw [step_chunkBody hs, step_chunkBody hs]
    exact (onChunkBody_extends h hu hs).imp_left fun hb => ⟨p, .data hat, hb⟩
  · have hc := ((shape_chunk (Or.inr (Or.inr hs))).mp h.sound.shape).1
    rw [step_chunkEnd hs, step_chunkEnd hs, complete_taken (Or.inr hc), complete_taken (Or.inr hc)]
    exact Or.inr rfl

theorem moves_extends (hm : Moves u p q) : Moves w p q := by
  unfold Moves at hm ⊢
  rcases step_extends h hu with ⟨r, -, hs⟩ | hsa
  · rw [hs] at hm
    exact absurd hm not_leads_waits
  · rw [hsa]
    exact hm

theorem comes_extends (hr : ReflTransGen (Moves u) p q) : ReflTransGen (Moves w) p q := by
  induction hr with
  | refl => exact .refl
  | tail hr hm ih => exact ih.tail (moves_extends (comes_live h hr) hu hm)

end

theorem paused_unique (hq : Paused bytes p q) (hr : Paused bytes p r) : q = r := by
  cases hq with
  | line reads scans =>
    cases hr with
    | line _ scans' =>
      cases scans.symm.trans scans'
      rfl
    | data reads' => exact absurd reads reads'
  | data reads =>
    cases hr with
    | line reads' _ => exact absurd reads' reads
    | data _ => rfl

/-- A round looks at the octets, not at how they lie in memory. -/
theorem step_bytes (h : Live u p) (hb : u.bytes = w.bytes) : p.step u = p.step w := by
  have hw := live_extend h (w := w) (hb ▸ List.prefix_rfl)
  rcases step_extends h (w := w) (hb ▸ List.prefix_rfl) with ⟨q, hq, hs⟩ | hsa
  · rcases step_extends hw (w := u) (hb ▸ List.prefix_rfl) with ⟨r, hr, hs'⟩ | hsa
    · rw [← hb] at hr
      rw [hs, hs', paused_unique hq hr]
    · exact hsa
  · exact hsa.symm

theorem call_bytes (h : Live u p) (hb : u.bytes = w.bytes) : call u p = call w p := by
  have hu : u.bytes <+: w.bytes := hb ▸ List.prefix_rfl
  obtain ⟨q, hr, hs⟩ := call_ends h
  have hq := step_bytes (comes_live h hr) hb
  refine (call_eq (live_extend h hu) (comes_extends h hu hr) ?_).symm
  generalize call u p = out at hs
  cases hs with
  | returned last status => exact .returned (hq.symm.trans last) status
  | thrown last => exact .thrown (hq.symm.trans last)

end Prefixes

section Resuming
variable {u w : BufferSequence}

structure Resumes (bytes : Octets) (p q : HttpRequestParser) : Prop where
  reads : AtLine p
  only : q = { p with scanOffset := q.scanOffset }
  same : scanned q bytes = scanned p bytes

theorem paused_resumes (h : Live u p) (hu : u.bytes <+: w.bytes) (hp : Paused u.bytes p q) :
    q = p ∨ Resumes w.bytes p q := by
  cases hp with
  | data => exact Or.inl rfl
  | @line hat n hs =>
    refine Or.inr ⟨hat, rfl, ?_⟩
    obtain ⟨more, hm⟩ := drop_extend h hu
    obtain ⟨hf, -, hr⟩ := scan_resume more hs
    have hl := h.sound.line
    have hat' : p.scanOffset + (n - (p.scanOffset - p.lineStart)) = p.lineStart + n := by omega
    rw [← hm, List.drop_drop, hat'] at hr
    unfold scanned
    dsimp only
    rw [Nat.add_sub_cancel_left]
    exact hr

theorem paused_live (h : Live u p)
    (hst : p.step u = .done q result) (hp : Paused u.bytes p q) : Live u q := by
  have hs : q.state = p.state := by
    cases hp with
    | line => rfl
    | data => rfl
  have ht := h.turned
  rw [hst] at ht
  cases ht with
  | done _ sound inside _ => exact ⟨sound, by rw [hs]; exact h.live, inside⟩

/-- Further in its line, a round does the same, but an error keeps the place, and
an over-long trailer ends there. -/
theorem resumes_step (hp : Live w p) (hq : Live w q) (h : Resumes w.bytes p q) :
    q.step w = p.step w ∨ (∃ error, q.step w = q.fail error ∧ p.step w = p.fail error) ∨
      OverLong w.bytes p := by
  obtain ⟨hat, ho, hsa⟩ := h
  have hs : q.state = p.state := by rw [ho]
  have hat' : AtLine q := by
    unfold AtLine
    rw [hs]
    exact hat
  cases hsc : scanned p w.bytes with
  | paused n =>
    left
    rw [step_paused hp hat hsc, step_paused hq hat' (hsa.trans hsc), ho]
  | malformed =>
    right; left
    exact ⟨_, step_malformed hq hat' (hsa.trans hsc), step_malformed hp hat hsc⟩
  | tooLong =>
    right
    by_cases ht : p.state = .chunkTrailer
    · exact Or.inr ⟨ht, hsc⟩
    · refine Or.inl ⟨tooLongError p.state, ?_, step_tooLong hp hat hsc ht⟩
      rw [step_tooLong hq hat' (hsa.trans hsc) (hs ▸ ht), hs]
  | line n =>
    left
    rw [step_line hat hp.sound.line hp.inside, step_line hat' hq.sound.line hq.inside, hsa, hsc, ho]
    rfl

end Resuming

inductive Ending where
  | incomplete
  | error (code : HttpParseError)
  | complete (request : HttpRequest) (consumedBytes : Nat)
  | thrown (exception : Thrown)
  | unsettled
  deriving DecidableEq, Repr

def settled : Outcome → Option Ending
  | .returned result =>
    match result.status with
    | .incomplete => none
    | .complete => some (.complete result.request result.consumedBytes)
    | .error => some (.error result.error)
    | .headersComplete => some .unsettled
  | .thrown e => some (.thrown e)
  | .running => some .unsettled

/-- The calls on one input after the other, up to the first that settles. -/
def drive : HttpRequestParser → List BufferSequence → Ending
  | _, [] => .incomplete
  | p, input :: inputs =>
    (settled (call input p).2).getD (drive (call input p).1 inputs)

/-- What has arrived of the octets `w` from call to call, in the end all of them. -/
inductive Grows (w : Octets) : List BufferSequence → Prop
  | whole {input : BufferSequence} (all : input.bytes = w) : Grows w [input]
  | part {input next : BufferSequence} {rest : List BufferSequence}
      (grows : input.bytes <+: next.bytes) (more : Grows w (next :: rest)) :
      Grows w (input :: next :: rest)

theorem Grows.within (h : Grows w (input :: rest)) : input.bytes <+: w := by
  generalize hall : input :: rest = inputs at h
  induction h generalizing input rest with
  | whole all =>
    cases hall
    exact all ▸ List.prefix_rfl
  | part grows _ ih =>
    cases hall
    exact grows.trans (ih rfl)

section Driving
variable {u w : BufferSequence} {p q : HttpRequestParser}

theorem drive_settled (h : settled (call u p).2 = some ending) : drive p (u :: rest) = ending := by
  rw [drive, h]
  rfl

theorem drive_later (h : Live w p) (hr : ReflTransGen (Moves w) p q) : drive p [w] = drive q
    [w] := by
  unfold drive
  rw [call_later h hr]

theorem drive_step (hp : Live w p) (hq : Live w q) (h : p.step w = q.step w) :
    drive p [w] = drive q [w] := by
  unfold drive
  rw [call_step hp hq h]

theorem drive_fail (h : Live w p) (hf : p.step w = p.fail error) : drive p [w] = .error error := by
  unfold drive
  rw [call_eq h .refl (.returned hf nofun)]
  rfl

/-- Behind the trailer the message is complete. -/
theorem step_ended (hs : p.state = .chunkEnd) (hc : p.hasChunked = true) :
    p.step w = .done p.reset {
      status := .complete
      consumedBytes := p.scanOffset
      request := p.request } := by
  rw [step_chunkEnd hs, complete_taken (Or.inr hc), if_pos hc]

/-- The round that completes a message: what it returns, and how many octets it has taken. -/
inductive Completed (bytes : Octets) (p : HttpRequestParser) : HttpRequest → Nat → Prop
  | head {n : Nat} {r : HttpRequestParser} (state : p.state = .headers)
      (scans : scanned p bytes = .line n)
      (empty : slice bytes p.lineStart (p.lineStart + n) = [])
      (fits : 2 ≤ p.options.maximumHeaderBytes.toNat - p.headerBytes)
      (finalized : finalizeHeaders { (found p bytes (.line n)).1 with
        headerBytes := p.headerBytes + 2 } = .ok r)
      (plain : r.hasChunked = false) (none : r.contentLength = 0) :
      Completed bytes p r.request r.scanOffset
  | body (state : p.state = .body) (fits : p.bodyOffset + p.contentLength ≤ bytes.length) :
      Completed bytes p { p.request with
        body := slice bytes p.bodyOffset (p.bodyOffset + p.contentLength) }
        (p.bodyOffset + p.contentLength)
  | ended (state : p.state = .chunkEnd) : Completed bytes p p.request p.scanOffset

theorem headers_completed (h : Live w p) (hs : p.state = .headers)
    (hste : p.step w = .done q result) (hst : result.status = .complete) :
    q = p.reset ∧ Completed w.bytes p result.request result.consumedBytes := by
  have hat : AtLine p := Or.inr (Or.inl hs)
  have hfa : ∀ {t : HttpRequestParser} {e : HttpParseError}, t.fail e ≠ .done q result := by
    intro t e hc
    cases hc
    cases hst
  cases hsc : scanned p w.bytes with
  | paused n =>
    cases hste.symm.trans (step_paused h hat hsc)
    cases hst
  | malformed => exact absurd ((step_malformed h hat hsc).symm.trans hste) hfa
  | tooLong =>
    refine absurd ((step_tooLong h hat hsc ?_).symm.trans hste) hfa
    rw [hs]
    exact nofun
  | line n =>
    rw [step_line hat h.sound.line h.inside, hsc] at hste
    unfold onLine found at hste
    dsimp only at hste
    rw [hs] at hste
    unfold onHeaderLine takeHeaderLine at hste
    dsimp only at hste
    split at hste
    · exact absurd hste hfa
    rename_i hfit
    split at hste
    · rename_i he
      rw [he] at hfit hste
      split at hste
      · exact absurd hste hfa
      · rename_i r hfin
        unfold enterBody at hste
        dsimp only at hste
        split at hste
        · rename_i hz
          simp only [Bool.and_eq_true, beq_iff_eq, Bool.not_eq_true'] at hz
          rw [complete_taken (by exact Or.inl hz.2)] at hste
          cases hste
          have ho : r.options = p.options := (finalized hfin).options
          refine ⟨by simp only [reset, ho], ?_⟩
          dsimp only
          rw [hz.1, hz.2]
          rw [← hs] at hfin
          exact .head hs hsc he (Nat.le_of_not_lt hfit) hfin hz.1 hz.2
        · split at hste
          · cases hste
            cases hst
          · cases hste
    split at hste
    · exact absurd hste hfa
    split at hste
    · exact absurd hste hfa
    · cases hste

/-- Behind a complete message the parser is a new one. -/
theorem completed (h : Live w p) (hste : p.step w = .done q result)
    (hst : result.status = .complete) :
    q = p.reset ∧ Completed w.bytes p result.request result.consumedBytes := by
  have ht := h.turned
  rw [hste] at ht
  cases ht with
  | done _ _ _ said =>
    rw [hst] at said
    cases said with
    | completes place =>
      rcases place with hs | hs | hs
      · exact headers_completed h hs hste hst
      · obtain ⟨hc, hl, -⟩ := (shape_body hs).mp h.sound.shape
        rw [step_body hs, onBody, BufferSequence.size_eq] at hste
        split at hste
        · cases hste
          cases hst
        split at hste
        · cases hste
          cases hst
        · rename_i hf
          rw [complete_copied hl hc (Nat.le_of_not_lt hf)] at hste
          cases hste
          exact ⟨rfl, .body hs (Nat.le_of_not_lt hf)⟩
      · have hc := ((shape_chunk (Or.inr (Or.inr hs))).mp h.sound.shape).1
        cases hste.symm.trans (step_ended hs hc)
        exact ⟨rfl, .ended hs⟩

/-- An over-long trailer ends the message where the parser stands. -/
theorem drive_overLong (h : Live w p) (ho : OverLong w.bytes p) :
    drive p [w] = .complete p.request p.scanOffset := by
  have hch := ((shape_chunk (Or.inr (Or.inl ho.1))).mp h.sound.shape).1
  have hend : ({ p with state := .chunkEnd } : HttpRequestParser).step w = .done p.reset {
      status := .complete
      consumedBytes := p.scanOffset
      request := p.request } := by
    refine step_ended ?_ ?_
    · rfl
    · exact hch
  unfold drive
  rw [call_eq h (.single (Or.inl (step_overLong h ho))) (.returned hend nofun)]
  rfl

def Text (bytes : Octets) (p : HttpRequestParser) : Prop :=
  AtLine p → Clean (slice bytes p.lineStart p.scanOffset)

theorem flush_text (h : AtLine p → p.lineStart = p.scanOffset) : Text bytes p := by
  intro hat c hc
  rw [h hat, slice, Nat.sub_self] at hc
  cases hc

theorem comes_text (h : Live w p) (ht : Text w.bytes p) (hr : ReflTransGen (Moves w) p q) :
    Text w.bytes q := by
  cases hr with
  | refl => exact ht
  | tail hr hm => exact flush_text (moves_live (comes_live h hr) hm).2.1.flush

theorem paused_text (h : Live u p) (hu : u.bytes <+: w.bytes) (ht : Text w.bytes p)
    (hp : Paused u.bytes p q) : Text w.bytes q := by
  cases hp with
  | data => exact ht
  | @line hat n hs =>
    obtain ⟨hf, hto⟩ := scanned_paused h.sound.line h.inside hs
    have hl := h.sound.line
    have hnew := scan_paused_clean hs
    have hco : n - (p.scanOffset - p.lineStart) = p.lineStart + n - p.scanOffset := by omega
    intro _ c hc
    rw [← slice_append _ _ p.scanOffset _ h.sound.line hf, slice_extend hu hto] at hc
    rcases List.mem_append.mp hc with hc | hc
    · exact ht hat c hc
    · rw [hco] at hnew
      exact hnew c hc

theorem settled_none (h : settled (.returned result) = none) : result.status = .incomplete := by
  unfold settled at h
  dsimp only at h
  split at h
  · assumption
  all_goals cases h

theorem settled_complete {request : HttpRequest} (h : (settled (.returned result)).getD rest = .complete request k)
    (hr : rest = .incomplete) :
    result.status = .complete ∧ request = result.request ∧ k = result.consumedBytes := by
  subst hr
  unfold settled at h
  dsimp only at h
  cases hs : result.status with
  | complete =>
    rw [hs] at h
    cases h
    exact ⟨rfl, rfl, rfl⟩
  | incomplete | error | headersComplete =>
    rw [hs] at h
    cases h

/-- What a part of the input settles, the whole settles in the same way. -/
theorem settled_extends (h : Live u p)
    (hu : u.bytes <+: w.bytes) (hs : Stopped u p out) (he : settled out.2 = some ending) :
    Stopped w p out := by
  rcases step_extends h hu with ⟨r, -, hst⟩ | hsa
  · cases hs with
    | thrown last => cases last.symm.trans hst
    | returned last _ =>
      cases last.symm.trans hst
      cases he
  · cases hs with
    | thrown last => exact .thrown (hsa.trans last)
    | returned last status => exact .returned (hsa.trans last) status

theorem stopped_paused (h : Live u p)
    (hs : Stopped u p out) (hn : settled out.2 = none) : Paused u.bytes p out.1 ∧ Live u out.1 := by
  cases hs with
  | thrown _ => cases hn
  | returned last _ =>
    have ht := h.turned
    rw [last] at ht
    cases ht with
    | done _ _ _ said =>
      rw [settled_none hn] at said
      cases said with
      | waits paused => exact ⟨paused, paused_live h last paused⟩

/-- The message is cut short in the trailer, `k` octets into the input. -/
def CutShort (w : BufferSequence) (p : HttpRequestParser) (ending : Ending) : Prop :=
  ∃ q k, ReflTransGen (Moves w) p q ∧ OverLong w.bytes q ∧ ending = .complete q.request k ∧
    q.lineStart ≤ k ∧ Clean (slice w.bytes q.lineStart k)

theorem not_moves_ended (h : Live w p) (hs : p.state = .chunkEnd) : ¬ Moves w p q := by
  have hc := ((shape_chunk (Or.inr (Or.inr hs))).mp h.sound.shape).1
  unfold Moves
  rw [step_chunkEnd hs]
  exact not_leads_taken (Or.inr hc)

theorem overLong_resumes (h : Resumes w.bytes p q) : OverLong w.bytes q ↔ OverLong w.bytes p := by
  have hs : q.state = p.state := by rw [h.only]
  unfold OverLong
  rw [hs, h.same]

theorem resumes_cut (hp : Live w p) (hq : Live w q) (h : Resumes w.bytes p q)
    (hc : CutShort w q ending) : CutShort w p ending := by
  obtain ⟨r, k, hr, ho, hend, hle, hcl⟩ := hc
  rcases ReflTransGen.cases_head hr with rfl | ⟨s, hm, hr'⟩
  · have hre : q.request = p.request := by rw [h.only]
    have hl : q.lineStart = p.lineStart := by rw [h.only]
    rw [hre] at hend
    rw [hl] at hle hcl
    exact ⟨p, k, .refl, (overLong_resumes h).mp ho, hend, hle, hcl⟩
  rcases resumes_step hp hq h with hsa | ⟨error, hf, -⟩ | hov
  · refine ⟨r, k, .head ?_ hr', ho, hend, hle, hcl⟩
    unfold Moves at hm ⊢
    rw [← hsa]
    exact hm
  · unfold Moves at hm
    rw [hf] at hm
    exact absurd hm not_leads_fail
  · -- the next round is at the end of the message, and no round follows it
    have hs := (moves_live hq hm).1
    unfold Moves at hm
    rw [step_overLong hq ((overLong_resumes h).mpr hov)] at hm
    cases hm.next
    rcases ReflTransGen.cases_head hr' with rfl | ⟨_, hm', -⟩
    · cases ho.1
    · exact absurd hm' (not_moves_ended hs rfl)

theorem CutShort.trans (hr : ReflTransGen (Moves w) p q)
    (h : CutShort w q ending) : CutShort w p ending := by
  obtain ⟨r, k, hr', hre⟩ := h
  exact ⟨r, k, hr.trans hr', hre⟩

/-- The calls on growing parts of the input come to what one call on the whole
comes to, or the message is cut short. -/
theorem drive_tracks (hg : Grows w.bytes inputs) (hl : ∀ u rest, inputs = u :: rest → Live u p)
    (ht : Text w.bytes p) : drive p inputs = drive p [w] ∨ CutShort w p (drive p inputs) := by
  induction hg generalizing p with
  | whole all =>
    left
    unfold drive
    rw [call_bytes (hl _ _ rfl) all]
  | @part u next rest grows more ih =>
    have h := hl u _ rfl
    have hu := grows.trans more.within
    have hw := live_extend h hu
    obtain ⟨q, hr, hs⟩ := call_ends h
    have hq := comes_live h hr
    have hrw := comes_extends h hu hr
    cases hset : settled (call u p).2 with
    | some ending =>
      have hsa := call_eq hw hrw (settled_extends hq hu hs hset)
      left
      rw [drive_settled hset, drive_settled (hsa ▸ hset)]
    | none =>
      obtain ⟨hp, hr⟩ := stopped_paused hq hs hset
      rw [drive, hset, Option.getD_none]
      generalize (call u p).1 = r at hp hr
      have htq := comes_text hw ht hrw
      have hrs := ih (fun v _ hv => by cases hv; exact live_extend hr grows)
        (paused_text hq hu htq hp)
      rw [drive_later hw hrw]
      rcases paused_resumes hq hu hp with rfl | hres
      · exact hrs.imp_right (.trans hrw)
      have hqw := live_extend hq hu
      have hrw' := live_extend hr hu
      rcases hrs with he | hcut
      · rw [he]
        rcases resumes_step hqw hrw' hres with hsa | ⟨error, hf, hf'⟩ | ho
        · exact Or.inl (drive_step hrw' hqw hsa)
        · exact Or.inl ((drive_fail hrw' hf).trans (drive_fail hqw hf').symm)
        · right
          have hend := drive_overLong hrw' ((overLong_resumes hres).mpr ho)
          have hre : r.request = q.request := by rw [hres.only]
          have hli : r.lineStart = q.lineStart := by rw [hres.only]
          have hc := paused_text hq hu htq hp
            (Or.inr (Or.inr (Or.inr ((overLong_resumes hres).mpr ho).1)))
          refine ⟨q, r.scanOffset, hrw, ho, hre ▸ hend, ?_, hli ▸ hc⟩
          exact hli ▸ hr.sound.line
      · exact Or.inr (.trans hrw (resumes_cut hqw hrw' hres hcut))

end Driving

section Splitting
/-- Outside of lines only a chunk that is there, and fits, leads on. -/
theorem moves_data (h : Live w p) (hat : ¬ AtLine p) (hm : Moves w p q) :
    p.state = .chunkBody ∧ p.chunkBodyOffset + p.chunkSize + 2 ≤ w.bytes.length ∧
      ¬ p.request.body.length + p.chunkSize > p.options.maximumBodyBytes.toNat ∧
      q = chunkTaken p w.bytes := by
  rcases h.data hat with hs | hs | hs
  · obtain ⟨hch, hl, -⟩ := (shape_body hs).mp h.sound.shape
    unfold Moves at hm
    rw [step_body hs, onBody, BufferSequence.size_eq] at hm
    split at hm
    · exact absurd hm not_leads_fail
    split at hm
    · exact absurd hm not_leads_waits
    · rename_i hf
      rw [complete_copied hl hch (Nat.le_of_not_lt hf)] at hm
      rcases hm with hc | ⟨result, hc, hst⟩
      · cases hc
      · cases hc
        cases hst
  · unfold Moves at hm
    rw [step_chunkBody hs] at hm
    rcases Nat.lt_or_ge (p.chunkBodyOffset + p.chunkSize + 2) (2 ^ 64) with hf | ho
    · rw [chunkBody_fits h.sound hs h.inside hf] at hm
      split at hm
      · exact absurd hm not_leads_waits
      split at hm
      · exact absurd hm not_leads_fail
      · rename_i hi hmax
        exact ⟨hs, Nat.le_of_not_lt hi, hmax, hm.next⟩
    · rw [chunkBody_overflows h.sound hs h.inside ho] at hm
      split at hm
      · exact absurd hm not_leads_waits
      split at hm
      · exact absurd hm not_leads_fail
      · obtain ⟨r, e, ht, -⟩ := chunkThrown_thrown h.sound hs ho
        rw [ht] at hm
        rcases hm with hc | ⟨_, hc, -⟩
        all_goals cases hc
  · exact absurd hm (not_moves_ended h hs)

/-- A round that ends within a part of the input needs no more than that part. -/
theorem moves_restricts (h : Live u p) (hu : u.bytes <+: w.bytes) (hm : Moves w p q)
    (hi : q.scanOffset ≤ u.bytes.length) (he : q.state ≠ .chunkEnd) : Moves u p q := by
  have hw := live_extend h hu
  have hl := h.sound.line
  rcases step_extends h hu with ⟨r, hp, hst⟩ | hsa
  · exfalso
    cases hp with
    | line hat hsc =>
      rcases moves_line hw hat hm with ⟨n, hf, ht⟩ | ⟨-, rfl⟩
      · have hoff : q.scanOffset = p.lineStart + n + 2 := ht.offset
        obtain ⟨more, hmo⟩ := drop_extend h hu
        have hsa : scanned p u.bytes = .line n := by
          refine scan_line_part hf ⟨more, hmo.symm⟩ ?_
          have := h.inside
          rw [List.length_drop]
          omega
        cases hsc.symm.trans hsa
      · exact he rfl
    | data hat =>
      obtain ⟨hs, -, hmax, rfl⟩ := moves_data hw hat hm
      have hend : p.chunkBodyOffset + p.chunkSize + 2 ≤ u.bytes.length := hi
      have hfi := Nat.lt_of_le_of_lt hend (Nat.lt_trans u.bytes_lt (by decide : 2 ^ 63 < 2 ^ 64))
      rw [step_chunkBody hs, chunkBody_fits h.sound hs h.inside hfi,
        if_neg (Nat.not_lt.mpr hend), if_neg hmax] at hst
      cases hst
  · unfold Moves at hm ⊢
    rw [← hsa]
    exact hm

theorem comes_forward (h : Live w p) (hr : ReflTransGen (Moves w) p q) :
    p.scanOffset ≤ q.scanOffset := by
  induction hr with
  | refl => exact Nat.le_refl _
  | tail hr hm ih => exact Nat.le_trans ih (moves_live (comes_live h hr) hm).2.2

theorem comes_options (h : Live w p) (hr : ReflTransGen (Moves w) p q) : q.options = p.options := by
  induction hr with
  | refl => rfl
  | tail hr hm ih => exact (moves_live (comes_live h hr) hm).2.1.options.trans ih

theorem comes_restricts (h : Live u p) (hu : u.bytes <+: w.bytes)
    (hr : ReflTransGen (Moves w) p q) (hi : q.scanOffset ≤ u.bytes.length)
    (he : q.state ≠ .chunkEnd) : ReflTransGen (Moves u) p q := by
  induction hr using ReflTransGen.head_induction_on with
  | refl => exact .refl
  | @head p r hm hr ih =>
    have hl := (moves_live (live_extend h hu) hm).1
    have hnot : r.state ≠ .chunkEnd := by
      intro hc
      rcases ReflTransGen.cases_head hr with rfl | ⟨_, hm', -⟩
      · exact he hc
      · exact not_moves_ended hl hc hm'
    have hmu := moves_restricts h hu hm (Nat.le_trans (comes_forward hl hr) hi) hnot
    exact .head hmu (ih (moves_live h hmu).1)

/-- A cut one octet into an over-long trailer changes where the message ends. -/
theorem drive_split (h : Live u p) (hu : u.bytes <+: w.bytes) (hr : ReflTransGen (Moves w) p q)
    (ho : OverLong w.bytes q) (hi : q.scanOffset ≤ u.bytes.length)
    (hsc : scanned q u.bytes = .paused 1) (hf : q.lineStart = q.scanOffset) :
    drive p [u, w] ≠ drive p [w] := by
  have hat : AtLine q := Or.inr (Or.inr (Or.inr ho.1))
  have hne : q.state ≠ .chunkEnd := by
    rw [ho.1]
    exact nofun
  have hru := comes_restricts h hu hr hi hne
  have hq := comes_live h hru
  have hst := step_paused hq hat hsc
  have hca := call_eq h hru (.returned hst nofun)
  have hp : Paused u.bytes q { q with scanOffset := q.lineStart + 1 } := .line hat hsc
  have hnew := live_extend (paused_live hq hst hp) hu
  have hov : OverLong w.bytes { q with scanOffset := q.lineStart + 1 } := by
    rcases paused_resumes hq hu hp with hsa | hres
    · rw [hsa]
      exact ho
    · exact (overLong_resumes hres).mpr ho
  have hs : drive p [u, w] = .complete q.request (q.lineStart + 1) := by
    rw [drive, hca]
    exact drive_overLong hnew hov
  have hwh : drive p [w] = .complete q.request q.scanOffset :=
    (drive_later (live_extend h hu) hr).trans (drive_overLong (live_extend hq hu) ho)
  rw [hs, hwh, hf]
  intro hc
  injection hc with _ hc
  omega

end Splitting

section

variable (h : HttpRequestParser.create options = .ok p)
include h

theorem create_ok :
    p = { options := options } ∧ 2 ≤ options.maximumHeaderBytes.toNat := by
  unfold HttpRequestParser.create at h
  split at h
  · cases h
  · rename_i hl
    cases h
    refine ⟨rfl, Nat.le_of_not_lt fun hlt => hl (Or.inr (Or.inl ?_))⟩
    exact UInt64.lt_iff_toNat_lt.mpr hlt

theorem create_live (input : BufferSequence) : Live input p := by
  obtain ⟨rfl, -⟩ := create_ok h
  exact ⟨create_sound h, nofun, Nat.zero_le _⟩

theorem create_text : Text bytes p := by
  obtain ⟨rfl, -⟩ := create_ok h
  exact flush_text fun _ => rfl

end

/-- On one input the parser comes to every line at its start. -/
theorem create_flush
    (hc : HttpRequestParser.create options = .ok p) (hr : ReflTransGen (Moves w) p q)
    (hat : AtLine q) : q.lineStart = q.scanOffset := by
  cases hr with
  | refl =>
    obtain ⟨rfl, -⟩ := create_ok hc
    rfl
  | tail hr hm => exact (moves_live (comes_live (create_live hc w) hr) hm).2.1.flush hat

/-- However the input arrives, the calls come to the same, unless the parser comes
to a trailer line beyond the limit. -/
theorem drive_segments_iff {options : HttpParserOptions} {p : HttpRequestParser}
    (hc : HttpRequestParser.create options = .ok p) (w : BufferSequence) :
    (∀ inputs, Grows w.bytes inputs → drive p inputs = drive p [w]) ↔
      ∀ q, ReflTransGen (Moves w) p q → ¬ OverLong w.bytes q := by
  have hlive := create_live hc
  constructor
  · intro hall q hr ho
    have hq := comes_live (hlive w) hr
    have hflush := create_flush hc hr (Or.inr (Or.inr (Or.inr ho.1)))
    have hlimit : 2 ≤ q.lineLimit := by
      obtain ⟨rfl, hmin⟩ := create_ok hc
      unfold lineLimit
      rw [ho.1, comes_options (hlive w) hr]
      exact hmin
    have hscan := ho.2
    unfold scanned at hscan
    rw [hflush, Nat.sub_self] at hscan
    obtain ⟨c, rest, hdata, hfirst⟩ := scan_tooLong_first hscan (Nat.le_trans (by decide) hlimit)
    -- cut behind the first octet of the trailer
    let u := BufferSequence.ofViews (w.bytes.take (q.scanOffset + 1)) [] (by
      have := w.bytes_lt
      rw [List.length_take, List.length_nil]
      omega)
    have hbytes : u.bytes = w.bytes.take (q.scanOffset + 1) := by
      rw [BufferSequence.bytes_ofViews, List.append_nil]
    have hu : u.bytes <+: w.bytes := hbytes ▸ List.take_prefix _ _
    have hlong : q.scanOffset ≤ u.bytes.length := by
      rw [hbytes, List.length_take]
      have := hq.inside
      omega
    have hpaused : scanned q u.bytes = .paused 1 := by
      unfold scanned
      rw [hflush, Nat.sub_self, hbytes, List.drop_take, hdata, Nat.add_sub_cancel_left]
      exact hfirst
    exact drive_split (hlive u) hu hr ho hlong hpaused hflush (hall _ (.part hu (.whole rfl)))
  · intro hno inputs hg
    rcases drive_tracks hg (fun u _ _ => hlive u) (create_text hc) with
      hsame | ⟨q, _, hr, ho, -⟩
    · exact hsame
    · exact absurd ho (hno q hr)

def chunkedHead : Octets :=
  octets "POST / HTTP/1.1\r\nHost: a\r\nTransfer-Encoding: chunked\r\n\r\n"

def narrow : HttpRequestParser := { options := { maximumHeaderBytes := 39 } }

theorem narrow_created : HttpRequestParser.create { maximumHeaderBytes := 39 } = .ok narrow := by
  decide

def longTrailer : BufferSequence := textOf
  (chunkedHead ++ octets "0\r\nX: 4567890123456789012345678901234567890\r\n\r\n") (by decide)

def longTrailerCut : BufferSequence := textOf (chunkedHead ++ octets "0\r\nX: 4567890") (by decide)

theorem drive_segments_iff_narrow :
    HttpRequestParser.create { maximumHeaderBytes := 39 } = .ok narrow ∧
      ((∀ inputs, Grows longTrailer.bytes inputs →
        drive narrow inputs = drive narrow [longTrailer]) ↔
      ∀ q, ReflTransGen (Moves longTrailer) narrow q → ¬ OverLong longTrailer.bytes q) :=
  ⟨narrow_created, drive_segments_iff narrow_created longTrailer⟩

/-- As the input arrives, octets of the trailer are consumed or left. -/
theorem drive_segments_differ :
    HttpRequestParser.create { maximumHeaderBytes := 39 } = .ok narrow ∧
      Grows longTrailer.bytes [longTrailerCut, longTrailer] ∧
      drive narrow [longTrailerCut, longTrailer] ≠ drive narrow [longTrailer] := by
  refine ⟨narrow_created, .part ?_ (.whole rfl), by decide +kernel⟩
  decide +kernel

end IocpRuntime.Proofs.ParserSegments
