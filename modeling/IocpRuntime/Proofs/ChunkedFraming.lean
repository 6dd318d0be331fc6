import IocpRuntime.Proofs.HeaderFraming
import IocpRuntime.Proofs.ParserSegments

namespace IocpRuntime.Proofs.ChunkedFraming
open Lib Lib.Lines Buffer Http ParserSteps ParserSafety ParserSegments HeaderFraming
open Relation

variable {request full : HttpRequest}

def digitValue (c : UInt8) : Option Nat :=
  (octets "0123456789abcdef").idxOf? c <|> (octets "0123456789ABCDEF").idxOf? c

def digitStep (n : Nat) (c : UInt8) : Option Nat := (digitValue c).map (fun digit => n * 16 + digit)

/-- A line with a hexadecimal number, up to its end or to a `;`. -/
def SizeLine (line : Octets) (size : Nat) : Prop :=
  line.takeWhile (· ≠ 59) ≠ [] ∧ (line.takeWhile (· ≠ 59)).foldlM digitStep 0 = some size

inductive Trailer : Octets → Prop
  | ends : Trailer (lineThen [] [])
  | line {text rest : Octets} (clean : Clean text) (filled : text ≠ []) (more : Trailer rest) :
      Trailer (lineThen text rest)

/-- A chunked body on the wire, and the data in it. -/
inductive Chunks : Octets → Octets → Prop
  | last {line rest : Octets} (clean : Clean line) (size : SizeLine line 0)
      (trailer : Trailer rest) : Chunks (lineThen line rest) []
  | chunk {line data rest body : Octets} (clean : Clean line) (size : SizeLine line data.length)
      (filled : data ≠ []) (more : Chunks rest body) :
      Chunks (lineThen line (lineThen data rest)) (data ++ body)

/-- Header lines and an empty line, the request they make of another one, and what follows. -/
inductive Fields : HttpRequest → Octets → HttpRequest → Octets → Prop
  | ends (request : HttpRequest) (rest : Octets) : Fields request (lineThen [] rest) request rest
  | line {request next final : HttpRequest} {text more rest : Octets} (clean : Clean text)
      (filled : text ≠ []) (parsed : parseHeaderLine request text = .ok next)
      (fields : Fields next more final rest) : Fields request (lineThen text more) final rest

/-- The octets of a chunked request: the request line, the header lines, and the
chunks that hold its body. -/
def WellFormed (wire : Octets) (request : HttpRequest) : Prop :=
  ∃ start begun full fields chunks, wire = lineThen start fields ∧ Clean start ∧
    parseRequestLine {} start = .ok begun ∧ Fields begun fields full chunks ∧
    Chunks chunks request.body ∧
    request = { full with keepAlive := request.keepAlive, body := request.body }

section Sizes

theorem hexDigit_eq : hexDigit c = digitValue c := by
  have hall : ∀ n : Fin 256, hexDigit (UInt8.ofNat n) = digitValue (UInt8.ofNat n) := by
    decide +kernel
  have hc := hall ⟨c.toNat, c.toNat_lt⟩
  rwa [UInt8.ofNat_toNat] at hc

variable {spec code : Nat → UInt8 → Option Nat} {value : Octets}

theorem foldlM_le (hle : ∀ n c m, spec n c = some m → n ≤ m)
    (h : value.foldlM spec n = some size) : n ≤ size := by
  induction value generalizing n with
  | nil => exact (Option.some.inj h).le
  | cons c value ih =>
    obtain ⟨mid, hmid, hr⟩ := Option.bind_eq_some_iff.mp h
    exact Nat.le_trans (hle n c mid hmid) (ih hr)

/-- Digits only make a number larger: a loop that refuses each number beyond the bound reads the
numbers below it. -/
theorem foldlM_iff (hle : ∀ n c m, spec n c = some m → n ≤ m)
    (hc : ∀ n c m, code n c = some m ↔ spec n c = some m ∧ m < bound) (hn : n < bound) :
    value.foldlM code n = some size ↔ value.foldlM spec n = some size ∧ size < bound := by
  induction value generalizing n with
  | nil => exact ⟨fun h => ⟨h, Option.some.inj h ▸ hn⟩, And.left⟩
  | cons c value ih =>
    simp only [List.foldlM_cons, Option.bind_eq_bind, Option.bind_eq_some_iff]
    constructor
    · rintro ⟨mid, hmid, hr⟩
      obtain ⟨hs, hm⟩ := (hc n c mid).mp hmid
      exact ⟨⟨mid, hs, ((ih hm).mp hr).1⟩, ((ih hm).mp hr).2⟩
    · rintro ⟨⟨mid, hs, hr⟩, hb⟩
      have hm := Nat.lt_of_le_of_lt (foldlM_le hle hr) hb
      exact ⟨mid, (hc n c mid).mpr ⟨hs, hm⟩, (ih hm).mpr ⟨hr, hb⟩⟩

theorem digitStep_le (h : digitStep n c = some m) : n ≤ m := by
  obtain ⟨digit, -, rfl⟩ := Option.map_eq_some_iff.mp h
  omega

/-- A round goes on exactly when the next number is below `2 ^ 64`. -/
theorem hexStep_iff : hexStep n c = some m ↔ digitStep n c = some m ∧ m < 2 ^ 64 := by
  unfold hexStep digitStep
  rw [hexDigit_eq]
  cases hd : digitValue c with
  | none => simp
  | some digit =>
    have := hexDigit_lt (hexDigit_eq.trans hd)
    simp only [Option.map_some, Option.ite_none_left_eq_some, Option.some.injEq]
    omega

theorem parseHexSize_iff : parseHexSize value = some size ↔
    value ≠ [] ∧ value.foldlM digitStep 0 = some size ∧ size < 2 ^ 64 := by
  rw [parseHexSize, Option.ite_none_left_eq_some]
  exact and_congr_right fun _ =>
    foldlM_iff (fun _ _ _ => digitStep_le) (fun _ _ _ => hexStep_iff) (by decide)

theorem skipChunkExtension_eq : skipChunkExtension line = line.takeWhile (· ≠ 59) := by
  have hnot : (fun c : UInt8 => !decide (c ≠ 59)) = (· == 59) := by
    funext c
    by_cases hc : c = 59
    · simp [hc]
    · simp [hc]
  unfold skipChunkExtension find
  rw [List.takeWhile_eq_take_findIdx_not, hnot, List.drop_zero]
  cases hf : line.findIdx? (· == 59) with
  | none =>
    have hall := List.findIdx?_eq_none_iff_findIdx_eq.mp hf
    dsimp only [Option.map_none]
    rw [hall, List.take_length]
  | some i =>
    obtain ⟨-, hi⟩ := List.findIdx?_eq_some_iff_findIdx_eq.mp hf
    dsimp only [Option.map_some]
    rw [hi, Nat.add_zero]

theorem sizeLine (h : parseHexSize (skipChunkExtension line) = some size) : SizeLine line size := by
  obtain ⟨hne, hf, -⟩ := parseHexSize_iff.mp h
  rw [skipChunkExtension_eq] at hne hf
  exact ⟨hne, hf⟩

theorem sizeLine_unique (hn : SizeLine line n) (hm : SizeLine line m) : n = m :=
  Option.some.inj (hn.2.symm.trans hm.2)

end Sizes

section Inversion
theorem trailer_line (hc : Clean text) :
    Trailer (lineThen text rest) ↔ (text = [] ∧ rest = []) ∨ (text ≠ [] ∧ Trailer rest) := by
  constructor
  · intro h
    generalize hwi : lineThen text rest = wire at h
    cases h with
    | ends =>
      obtain ⟨rfl, rfl⟩ := lineThen_cancel hc (fun _ hx => by cases hx) hwi
      exact Or.inl ⟨rfl, rfl⟩
    | line clean filled more =>
      obtain ⟨rfl, rfl⟩ := lineThen_cancel hc clean hwi
      exact Or.inr ⟨filled, more⟩
  · rintro (⟨rfl, rfl⟩ | ⟨filled, more⟩)
    · exact .ends
    · exact .line hc filled more

theorem fields_line (hc : Clean text) : Fields request (lineThen text rest) full chunks ↔
      (text = [] ∧ full = request ∧ chunks = rest) ∨
      (text ≠ [] ∧ ∃ next, parseHeaderLine request text = .ok next ∧
        Fields next rest full chunks) := by
  constructor
  · intro h
    generalize hwi : lineThen text rest = wire at h
    cases h with
    | ends =>
      obtain ⟨rfl, rfl⟩ := lineThen_cancel hc (fun _ hx => by cases hx) hwi
      exact Or.inl ⟨rfl, rfl, rfl⟩
    | line clean filled parsed fields =>
      obtain ⟨rfl, rfl⟩ := lineThen_cancel hc clean hwi
      exact Or.inr ⟨filled, _, parsed, fields⟩
  · rintro (⟨rfl, rfl, rfl⟩ | ⟨filled, next, parsed, fields⟩)
    · exact .ends _ _
    · exact .line hc filled parsed fields

theorem chunks_line (hc : Clean text) (hs : SizeLine text size) : Chunks (lineThen text rest) body ↔
      (size = 0 ∧ Trailer rest ∧ body = []) ∨
      (size ≠ 0 ∧ ∃ data more behind, data.length = size ∧ rest = lineThen data more ∧
        Chunks more behind ∧ body = data ++ behind) := by
  constructor
  · intro h
    generalize hwi : lineThen text rest = wire at h
    cases h with
    | last clean zero trailer =>
      obtain ⟨rfl, rfl⟩ := lineThen_cancel hc clean hwi
      exact Or.inl ⟨sizeLine_unique hs zero, trailer, rfl⟩
    | chunk clean size filled more =>
      obtain ⟨rfl, rfl⟩ := lineThen_cancel hc clean hwi
      have hsa := sizeLine_unique hs size
      refine Or.inr ⟨?_, _, _, _, hsa.symm, rfl, more, rfl⟩
      rw [hsa]
      exact fun hz => filled (List.length_eq_zero_iff.mp hz)
  · rintro (⟨rfl, trailer, rfl⟩ | ⟨hne, data, more, behind, rfl, rfl, hm, rfl⟩)
    · exact .last hc hs trailer
    · exact .chunk hc hs (fun hz => hne (List.length_eq_zero_iff.mpr hz)) hm

end Inversion

section Remaining
variable (P : HttpRequest → Prop)

def whole (request : HttpRequest) (rest : Octets) : HttpRequest :=
  { request with keepAlive := false, body := request.body ++ rest }

def ChunksLeft (request : HttpRequest) (rest : Octets) : Prop :=
  ∃ body, Chunks rest body ∧ P (whole request body)

def HeadLeft (request : HttpRequest) (rest : Octets) : Prop :=
  ∃ full chunks, Fields request rest full chunks ∧ ChunksLeft P full chunks

/-- What has to follow in each state, for a request with the property. -/
def Left (rest : Octets) (p : HttpRequestParser) : Prop :=
  match p.state with
  | .requestLine => ∃ start begun more, rest = lineThen start more ∧ Clean start ∧
      parseRequestLine p.request start = .ok begun ∧ HeadLeft P begun more
  | .headers => HeadLeft P p.request rest
  | .chunkHead => ChunksLeft P p.request rest
  | .chunkBody => ∃ data more, data.length = p.chunkSize ∧ rest = lineThen data more ∧
      ChunksLeft P { p.request with body := p.request.body ++ data } more
  | .chunkTrailer => Trailer rest ∧ P (whole p.request [])
  | .chunkEnd => rest = [] ∧ P (whole p.request [])
  | .body | .error => False

variable {P}

theorem headLeft_line (hc : Clean text) : HeadLeft P request (lineThen text rest) ↔
      (text = [] ∧ ChunksLeft P request rest) ∨
      (text ≠ [] ∧ ∃ next, parseHeaderLine request text = .ok next ∧ HeadLeft P next rest) := by
  unfold HeadLeft
  simp only [fields_line hc]
  constructor
  · rintro ⟨full, chunks, ⟨he, rfl, rfl⟩ | ⟨hf, next, parsed, fields⟩, hl⟩
    · exact Or.inl ⟨he, hl⟩
    · exact Or.inr ⟨hf, next, parsed, full, chunks, fields, hl⟩
  · rintro (⟨he, hl⟩ | ⟨hf, next, parsed, full, chunks, fields, hl⟩)
    · exact ⟨request, rest, Or.inl ⟨he, rfl, rfl⟩, hl⟩
    · exact ⟨full, chunks, Or.inr ⟨hf, next, parsed, fields⟩, hl⟩

theorem whole_data :
    whole { request with body := request.body ++ data } rest = whole request (data ++ rest) := by
  unfold whole
  dsimp only
  rw [List.append_assoc]

theorem chunksLeft_line (hc : Clean text) (hs : SizeLine text size) :
    ChunksLeft P request (lineThen text rest) ↔
      (size = 0 ∧ Trailer rest ∧ P (whole request [])) ∨
      (size ≠ 0 ∧ ∃ data more, data.length = size ∧ rest = lineThen data more ∧
        ChunksLeft P { request with body := request.body ++ data } more) := by
  unfold ChunksLeft
  simp only [chunks_line hc hs, whole_data]
  constructor
  · rintro ⟨body, ⟨hz, trailer, rfl⟩ | ⟨hne, data, more, behind, hlen, hr, hm, rfl⟩, hp⟩
    · exact Or.inl ⟨hz, trailer, hp⟩
    · exact Or.inr ⟨hne, data, more, hlen, hr, behind, hm, hp⟩
  · rintro (⟨hz, trailer, hp⟩ | ⟨hne, data, more, hlen, hr, behind, hm, hp⟩)
    · exact ⟨[], Or.inl ⟨hz, trailer, rfl⟩, hp⟩
    · exact ⟨data ++ behind, Or.inr ⟨hne, data, more, behind, hlen, hr, hm, rfl⟩, hp⟩

/-- A line that the parser takes is the next one of the grammar. -/
theorem took_left (ht : Took p text q) (hc : Clean text) (hb : q.state ≠ .body) :
    Left P (lineThen text rest) p ↔ Left P rest q := by
  cases ht with
  | request state parsed =>
    unfold Left
    rw [state]
    constructor
    · rintro ⟨start, begun, more, hr, hcl, hpa, hl⟩
      obtain ⟨rfl, rfl⟩ := lineThen_cancel hc hcl hr
      cases parsed.symm.trans hpa
      exact hl
    · intro hl
      exact ⟨text, _, rest, rfl, hc, parsed, hl⟩
  | field state filled parsed =>
    unfold Left
    dsimp only
    rw [state]
    dsimp only
    rw [headLeft_line hc]
    constructor
    · rintro (⟨he, -⟩ | ⟨-, next, hpa, hl⟩)
      · exact absurd he filled
      · cases parsed.symm.trans hpa
        exact hl
    · intro hl
      exact Or.inr ⟨filled, _, parsed, hl⟩
  | head state empty finalized =>
    obtain ⟨t, -, -, rfl⟩ := finalizeHeaders_ok finalized
    subst empty
    cases hch : t.hasChunked with
    | false => exact absurd (if_neg (by rw [hch]; exact Bool.false_ne_true)) hb
    | true =>
      unfold Left
      dsimp only
      rw [state, if_pos rfl]
      dsimp only
      rw [headLeft_line hc]
      constructor
      · rintro (⟨-, hl⟩ | ⟨hf, -⟩)
        · exact hl
        · exact absurd rfl hf
      · intro hl
        exact Or.inl ⟨rfl, hl⟩
  | @size size state parsed =>
    unfold Left
    dsimp only
    rw [state]
    dsimp only
    rw [chunksLeft_line hc (sizeLine parsed)]
    by_cases hz : size = 0
    · rw [if_pos hz]
      constructor
      · rintro (⟨-, hl⟩ | ⟨hne, -⟩)
        · exact hl
        · exact absurd hz hne
      · intro hl
        exact Or.inl ⟨hz, hl⟩
    · rw [if_neg hz]
      constructor
      · rintro (⟨hze, -⟩ | ⟨-, hl⟩)
        · exact absurd hze hz
        · exact hl
      · intro hl
        exact Or.inr ⟨hz, hl⟩
  | trailer state filled =>
    unfold Left
    rw [state]
    dsimp only
    rw [trailer_line hc]
    constructor
    · rintro ⟨⟨he, -⟩ | ⟨-, hl⟩, hp⟩
      · exact absurd he filled
      · exact ⟨hl, hp⟩
    · rintro ⟨hl, hp⟩
      exact ⟨Or.inr ⟨filled, hl⟩, hp⟩
  | last state empty =>
    unfold Left
    dsimp only
    rw [state]
    dsimp only
    rw [trailer_line hc]
    constructor
    · rintro ⟨⟨-, hr⟩ | ⟨hf, -⟩, hp⟩
      · exact ⟨hr, hp⟩
      · exact absurd empty hf
    · rintro ⟨hr, hp⟩
      exact ⟨Or.inl ⟨empty, hr⟩, hp⟩

end Remaining

/-- Chunk data with two octets behind it that are not CR LF. -/
def Unterminated (bytes : Octets) (p : HttpRequestParser) : Prop :=
  p.state = .chunkBody ∧ p.chunkBodyOffset + p.chunkSize + 2 ≤ bytes.length ∧
    slice bytes (p.chunkBodyOffset + p.chunkSize) (p.chunkBodyOffset + p.chunkSize + 2) ≠ [13, 10]

section Runs
variable {w : BufferSequence}

theorem read_line (hf : p.lineStart = p.scanOffset)
    (hs : scanned p w.bytes = .line n) (hk : p.lineStart + n + 2 ≤ k) :
    Clean (slice w.bytes p.lineStart (p.lineStart + n)) ∧
      slice w.bytes p.scanOffset k = lineThen (slice w.bytes p.lineStart (p.lineStart + n))
        (slice w.bytes (p.lineStart + n + 2) k) := by
  unfold scanned at hs
  rw [hf, Nat.sub_self] at hs
  obtain ⟨text, more, hd, hc, hn, -⟩ := scan_line hs
  rw [Nat.zero_add] at hn
  subst hn
  have ht : slice w.bytes p.lineStart (p.lineStart + text.length) = text := by
    rw [slice, hf, hd, Nat.add_sub_cancel_left, List.take_left]
  have hend : slice w.bytes (p.lineStart + text.length) (p.lineStart + text.length + 2) =
      [13, 10] := by
    rw [slice, hf, ← List.drop_drop, hd, List.drop_left, Nat.add_sub_cancel_left]
    rfl
  rw [ht]
  refine ⟨hc, ?_⟩
  rw [← hf, ← slice_append _ _ (p.lineStart + text.length) _ (Nat.le_add_right _ _) (by omega),
    ht, ← slice_append _ _ (p.lineStart + text.length + 2) _ (Nat.le_add_right _ _) hk, hend]
  rfl

theorem not_body (h : Live w q) (hr : ReflTransGen (Moves w) q r) (hend : r.state = .chunkEnd) :
    q.state ≠ .body := by
  intro hc
  rcases ReflTransGen.cases_head hr with rfl | ⟨s, hm, -⟩
  · cases hc.symm.trans hend
  · cases hc.symm.trans (moves_data h (not_atLine (Or.inl hc)) hm).1

/-- A chunk that the parser takes is the next one of the grammar if CR LF follows. -/
theorem chunk_left (h : Live w p) (hs : p.state = .chunkBody)
    (hi : p.chunkBodyOffset + p.chunkSize + 2 ≤ w.bytes.length)
    (hk : p.chunkBodyOffset + p.chunkSize + 2 ≤ k) :
    Left P (slice w.bytes p.scanOffset k) p ↔ ¬ Unterminated w.bytes p ∧
      Left P (slice w.bytes (p.chunkBodyOffset + p.chunkSize + 2) k) (chunkTaken p w.bytes) := by
  obtain ⟨-, -, -, ho, -, -⟩ := (shape_chunkBody hs).mp h.sound.shape
  have hsp := slice_append w.bytes p.chunkBodyOffset (p.chunkBodyOffset + p.chunkSize) k
    (Nat.le_add_right _ _) (by omega)
  have hb := slice_append w.bytes (p.chunkBodyOffset + p.chunkSize)
    (p.chunkBodyOffset + p.chunkSize + 2) k (Nat.le_add_right _ _) hk
  have hl := slice_length w.bytes p.chunkBodyOffset (p.chunkBodyOffset + p.chunkSize) (by omega)
  have htwo := slice_length w.bytes (p.chunkBodyOffset + p.chunkSize)
    (p.chunkBodyOffset + p.chunkSize + 2) hi
  rw [Nat.add_sub_cancel_left] at hl htwo
  rw [← ho, ← hsp, ← hb]
  unfold Left chunkTaken
  dsimp only
  rw [hs]
  dsimp only
  constructor
  · rintro ⟨data, more, hd, hr, hle⟩
    unfold lineThen at hr
    obtain ⟨hsa, hr⟩ := List.append_inj hr (hl.trans hd.symm)
    obtain ⟨hc, hm⟩ := List.append_inj (show _ = [13, 10] ++ more from hr) htwo
    rw [hsa, hm]
    exact ⟨fun hu => hu.2.2 hc, hle⟩
  · rintro ⟨ht, hle⟩
    have hc : slice w.bytes (p.chunkBodyOffset + p.chunkSize)
        (p.chunkBodyOffset + p.chunkSize + 2) = [13, 10] := by
      by_contra hne
      exact ht ⟨hs, hi, hne⟩
    exact ⟨_, _, hl, by rw [hc]; rfl, hle⟩

/-- Every round keeps to the grammar, unless chunk data is not terminated or a trailer too long. -/
theorem left_moves (h : Live w p) (hf : AtLine p → p.lineStart = p.scanOffset)
    (hm : Moves w p q) (hr : ReflTransGen (Moves w) q r) (hend : r.state = .chunkEnd)
    (hno : ¬ OverLong w.bytes p) (hk : q.scanOffset ≤ k) :
    Left P (slice w.bytes p.scanOffset k) p ↔
      ¬ Unterminated w.bytes p ∧ Left P (slice w.bytes q.scanOffset k) q := by
  by_cases hat : AtLine p
  · rcases moves_line h hat hm with ⟨n, hsc, ht⟩ | ⟨ho, -⟩
    · have hoff : q.scanOffset = p.lineStart + n + 2 := ht.offset
      have hli : ¬ Unterminated w.bytes p := fun hu => not_atLine (Or.inr hu.1) hat
      have hb := not_body (moves_live h hm).1 hr hend
      obtain ⟨hc, hsl⟩ := read_line (hf hat) hsc (hoff ▸ hk)
      rw [hsl, hoff]
      have hl : Left P (lineThen (slice w.bytes p.lineStart (p.lineStart + n))
          (slice w.bytes (p.lineStart + n + 2) k)) (found p w.bytes (.line n)).1 ↔
          Left P (slice w.bytes (p.lineStart + n + 2) k) q := took_left ht hc hb
      exact ⟨fun hp => ⟨hli, hl.mp hp⟩, fun hq => hl.mpr hq.2⟩
    · exact absurd ho hno
  · obtain ⟨hs, hi, -, rfl⟩ := moves_data h hat hm
    exact chunk_left h hs hi hk

theorem left_back (h : Live w p) (hf : AtLine p → p.lineStart = p.scanOffset)
    (hr : ReflTransGen (Moves w) p r) (hend : r.state = .chunkEnd)
    (hg : ∀ q, ReflTransGen (Moves w) p q → ¬ Unterminated w.bytes q ∧ ¬ OverLong w.bytes q)
    (hp : P (whole r.request [])) : Left P (slice w.bytes p.scanOffset r.scanOffset) p := by
  induction hr using ReflTransGen.head_induction_on with
  | refl =>
    unfold Left
    rw [hend, slice, Nat.sub_self]
    exact ⟨rfl, hp⟩
  | @head p q hm hr ih =>
    obtain ⟨hl, hmo, -⟩ := moves_live h hm
    obtain ⟨ht, hsh⟩ := hg p .refl
    have hle := ih hl hmo.flush fun s hs => hg s (.head hm hs)
    exact (left_moves h hf hm hr hend hsh (comes_forward hl hr)).mpr ⟨ht, hle⟩

theorem left_forth (h : Live w p) (hf : AtLine p → p.lineStart = p.scanOffset)
    (hpq : ReflTransGen (Moves w) p q) (hqr : ReflTransGen (Moves w) q r)
    (hend : r.state = .chunkEnd) (hno : ∀ s, ReflTransGen (Moves w) p s → ¬ OverLong w.bytes s)
    (hl : Left P (slice w.bytes p.scanOffset r.scanOffset) p) :
    ¬ Unterminated w.bytes q := by
  induction hpq using ReflTransGen.head_induction_on with
  | refl =>
    rcases ReflTransGen.cases_head hqr with rfl | ⟨s, hm, hr⟩
    · intro hu
      cases hend.symm.trans hu.1
    · have hs := (moves_live h hm).1
      exact ((left_moves h hf hm hr hend (hno q .refl) (comes_forward hs hr)).mp hl).1
  | @head p s hm hsq ih =>
    obtain ⟨hs, hmo, -⟩ := moves_live h hm
    have hr := hsq.trans hqr
    refine ih hs hmo.flush (fun t ht => hno t (.head hm ht)) ?_
    exact ((left_moves h hf hm hr hend (hno p .refl) (comes_forward hs hr)).mp hl).2

end Runs

section Endings
variable {options : HttpParserOptions} {w : BufferSequence}

theorem fields_body (h : Fields request rest full chunks) : full.body = request.body := by
  induction h with
  | ends => rfl
  | line _ _ parsed _ ih => exact ih.trans (parseHeaderLine_keeps parsed).1

theorem whole_eq (he : full.body = []) : whole full body = whole request [] ↔ body = request.body ∧
      request = { full with keepAlive := request.keepAlive, body := request.body } := by
  obtain ⟨method, methodText, target, path, query, headers, data, keep, id, connection⟩ := request
  obtain ⟨method', methodText', target', path', query', headers', data', keep', id', connection'⟩ :=
    full
  cases he
  simp only [whole, List.nil_append, List.append_nil, HttpRequest.mk.injEq, true_and]
  constructor
  · rintro ⟨rfl, rfl, rfl, rfl, rfl, rfl, rfl, rfl, rfl⟩
    simp
  · rintro ⟨rfl, rfl, rfl, rfl, rfl, rfl, rfl, rfl, rfl⟩
    simp

theorem wellFormed_left (hc : HttpRequestParser.create options = .ok p) :
    WellFormed (w.bytes.take k) request ↔
      Left (fun x => x = whole request []) (slice w.bytes p.scanOffset k) p := by
  obtain ⟨rfl, -⟩ := create_ok hc
  constructor
  · rintro ⟨start, begun, full, fields, chunks, hwi, hcl, hp, hf, hch, hs⟩
    have he := (fields_body hf).trans (parseRequestLine_keeps hp).1
    refine ⟨start, begun, fields, hwi, hcl, hp, full, chunks, hf, request.body, hch, ?_⟩
    exact (whole_eq he).mpr ⟨rfl, hs⟩
  · rintro ⟨start, begun, fields, hwi, hcl, hp, full, chunks, hf, body, hch, hwh⟩
    have he := (fields_body hf).trans (parseRequestLine_keeps hp).1
    obtain ⟨rfl, hs⟩ := (whole_eq he).mp hwh
    exact ⟨start, begun, full, fields, chunks, hwi, hcl, hp, hf, hch, hs⟩

def Ends (wire : Octets) : Prop := ∃ before, wire = before ++ [13, 10, 13, 10]

theorem trailer_ends (h : Trailer rest) (text : Octets) : Ends (lineThen text rest) := by
  induction h generalizing text with
  | ends => exact ⟨text, rfl⟩
  | @line line rest _ _ _ ih =>
    obtain ⟨before, hb⟩ := ih (text ++ 13 :: 10 :: line)
    refine ⟨before, ?_⟩
    rw [← hb]
    simp [lineThen]

theorem Ends.append (h : Ends wire) : Ends (front ++ wire) := by
  obtain ⟨before, rfl⟩ := h
  exact ⟨front ++ before, (List.append_assoc _ _ _).symm⟩

theorem lineThen_append : lineThen text rest = text ++ [13, 10] ++ rest := by
  simp [lineThen]

theorem chunks_ends (h : Chunks wire body) : Ends wire := by
  induction h with
  | last _ _ trailer => exact trailer_ends trailer _
  | chunk _ _ _ _ ih =>
    rw [lineThen_append, lineThen_append]
    exact ih.append.append

theorem fields_ends (h : Fields request rest full chunks) (hc : Ends chunks) : Ends rest := by
  induction h with
  | ends =>
    rw [lineThen_append]
    exact hc.append
  | line _ _ _ _ ih =>
    rw [lineThen_append]
    exact (ih hc).append

theorem wellFormed_ends (h : WellFormed wire request) : Ends wire := by
  obtain ⟨start, begun, full, fields, chunks, rfl, -, -, hf, hc, -⟩ := h
  rw [lineThen_append]
  exact (fields_ends hf (chunks_ends hc)).append

theorem took_filled (h : Took p text q) (hq : q.state = .chunkTrailer) : text ≠ [] := by
  cases h with
  | request => cases hq
  | field state => cases state.symm.trans hq
  | head =>
    dsimp only at hq
    split at hq
    all_goals cases hq
  | size _ parsed =>
    rintro rfl
    exact (sizeLine parsed).1 rfl
  | trailer _ filled => exact filled
  | last => cases hq

theorem take_slice (h : i ≤ j) : bytes.take j = bytes.take i ++ slice bytes i j := by
  have hj : j = i + (j - i) := by omega
  conv_lhs => rw [hj, List.take_add]
  rfl

theorem take_line (hf : p.lineStart = p.scanOffset) (hs : scanned p w.bytes = .line n) :
    w.bytes.take (p.lineStart + n + 2) = w.bytes.take p.lineStart ++
        lineThen (slice w.bytes p.lineStart (p.lineStart + n)) [] ∧
      Clean (slice w.bytes p.lineStart (p.lineStart + n)) ∧
      (slice w.bytes p.lineStart (p.lineStart + n)).length ≤ p.lineLimit := by
  obtain ⟨hc, hsl⟩ := read_line hf hs (Nat.le_refl _)
  obtain ⟨-, -, -, -, -, hn⟩ := scan_line hs
  have hnil : slice w.bytes (p.lineStart + n + 2) (p.lineStart + n + 2) = [] := by simp [slice]
  rw [← hf, hnil] at hsl
  refine ⟨?_, hc, ?_⟩
  · rw [take_slice (show p.lineStart ≤ p.lineStart + n + 2 by omega), hsl]
  · simp only [slice, List.length_take]
    omega

theorem before_trailer (hc : HttpRequestParser.create options = .ok p)
    (hr : ReflTransGen (Moves w) p q) (hq : q.state = .chunkTrailer) :
    ∃ before c, w.bytes.take q.lineStart = before ++ [c, 13, 10] ∧ c ≠ 10 := by
  have hl := create_live hc w
  have hf := create_flush hc hr (Or.inr (Or.inr (Or.inr hq)))
  cases hr with
  | refl =>
    obtain ⟨rfl, -⟩ := create_ok hc
    cases hq
  | @tail s _ hs hm =>
    have hsli := comes_live hl hs
    by_cases hat : AtLine s
    · rcases moves_line hsli hat hm with ⟨n, hsc, ht⟩ | ⟨-, rfl⟩
      · have hoff : q.scanOffset = s.lineStart + n + 2 := ht.offset
        obtain ⟨htake, hcl, -⟩ := take_line (create_flush hc hs hat) hsc
        rcases List.eq_nil_or_concat (slice w.bytes s.lineStart (s.lineStart + n)) with
          he | ⟨front, c, hte⟩
        · exact absurd he (took_filled ht hq)
        rw [hte] at hcl htake
        refine ⟨w.bytes.take s.lineStart ++ front, c, ?_, (hcl c (by simp)).2⟩
        rw [hf, hoff, htake]
        simp [lineThen]
      · cases hq
    · obtain ⟨-, -, -, rfl⟩ := moves_data hsli hat hm
      cases hq

/-- What is consumed of a message cut short does not end like one. -/
theorem not_wellFormed_cut
    (hc : HttpRequestParser.create options = .ok p) (hcut : CutShort w p (.complete request k)) :
    ¬ WellFormed (w.bytes.take k) request := by
  intro hw
  obtain ⟨q, k', hr, ho, hend, hle, hcl⟩ := hcut
  injection hend with _ hk
  subst hk
  obtain ⟨before, c, hb, hne⟩ := before_trailer hc hr ho.1
  obtain ⟨front, hf⟩ := wellFormed_ends hw
  rw [take_slice hle, hb] at hf
  rcases List.eq_nil_or_concat (slice w.bytes q.lineStart k) with he | ⟨text, d, ht⟩
  · rw [he, List.append_nil] at hf
    have hl := List.append_inj_right' (show before ++ [c, 13, 10] = (front ++ [13]) ++ [10, 13, 10]
      by rw [hf, List.append_assoc]; rfl) rfl
    injection hl with hc
    exact hne hc
  · rw [ht, List.concat_eq_append] at hf hcl
    have hl := List.append_inj_right' (show (before ++ [c, 13, 10] ++ text) ++ [d] =
      (front ++ [13, 10, 13]) ++ [10] by rw [List.append_assoc, hf, List.append_assoc]; rfl) rfl
    injection hl with hd
    exact (hcl d (List.mem_append_right _ List.mem_cons_self)).2 hd

end Endings

section Codings
variable {options : HttpParserOptions} {p q r : HttpRequestParser}

def Coded (request : HttpRequest) : Prop := request.headers.any (named "transfer-encoding") = true

instance (request : HttpRequest) : Decidable (Coded request) :=
  inferInstanceAs (Decidable (request.headers.any (named "transfer-encoding") = true))

theorem finalized_coded (h : p.finalizeHeaders = .ok r) (hp : p.hasChunked = false) :
    r.hasChunked = true ↔ Coded r.request := by
  obtain ⟨t, hf, -, rfl⟩ := finalizeHeaders_ok h
  obtain ⟨hv, ho⟩ := fold_valid hf
  obtain ⟨t', hf', ht⟩ := fold_ok hv ho
  cases hf.symm.trans hf'
  have hc := ht.chunked
  rw [show p.tally.hasChunked = false from hp, Bool.false_or] at hc
  unfold Coded
  dsimp only
  rw [hc]

theorem took_coded (h : Took p text q) (hs : Shape p)
    (hp : Beyond p → (p.hasChunked = true ↔ Coded p.request)) (hq : Beyond q) :
    q.hasChunked = true ↔ Coded q.request := by
  cases h with
  | request => exact absurd rfl hq.2
  | field state => exact absurd state hq.2
  | head state empty fin =>
    obtain ⟨-, -, hc⟩ := (shape_headers state).mp hs
    have hco := finalized_coded fin hc
    exact hco
  | size state => exact hp (beyond_of _ state (by decide))
  | trailer state => exact hp hq
  | last state => exact hp (beyond_of _ state (by decide))

theorem comes_coded (hc : HttpRequestParser.create options = .ok p)
    (hr : ReflTransGen (Moves w) p q) (hq : Beyond q) :
    q.hasChunked = true ↔ Coded q.request := by
  have hl := create_live hc w
  induction hr with
  | refl =>
    obtain ⟨rfl, -⟩ := create_ok hc
    exact absurd rfl hq.1
  | @tail s q hs hm ih =>
    have hsl := comes_live hl hs
    by_cases hat : AtLine s
    · rcases moves_line hsl hat hm with ⟨n, hsc, ht⟩ | ⟨ho, rfl⟩
      · have hsh : Shape (found s w.bytes (.line n)).1 := by
          have hre := (read_found hsl.sound hat hsl.inside).sound.shape
          rw [hsc] at hre
          exact hre
        exact took_coded ht hsh ih hq
      · exact ih (beyond_of _ ho.1 (by decide))
    · obtain ⟨hs, -, -, rfl⟩ := moves_data hsl hat hm
      exact ih (beyond_of _ hs (by decide))

theorem drive_ended
    (hc : HttpRequestParser.create options = .ok p) (hd : drive p [w] = .complete request k)
    (hco : Coded request) : ∃ r, ReflTransGen (Moves w) p r ∧ r.state = .chunkEnd ∧
      request = r.request ∧ k = r.scanOffset := by
  obtain ⟨r, hr, hs⟩ := call_ends (create_live hc w)
  have hl := comes_live (create_live hc w) hr
  rw [drive] at hd
  generalize call w p = out at hs hd
  cases hs with
  | thrown _ => cases hd
  | returned last _ =>
    obtain ⟨hst, hre, hk⟩ := settled_complete hd rfl
    have hcom := (completed hl last hst).2
    rw [← hre, ← hk] at hcom
    cases hcom with
    | head state _ _ _ fin plain =>
      have hch := (finalized_coded fin ((shape_headers state).mp hl.sound.shape).2.2).mpr hco
      rw [plain] at hch
      cases hch
    | body state =>
      have hb : Beyond r := beyond_of _ state (by decide)
      have hch := (comes_coded hc hr hb).mpr hco
      rw [((shape_body state).mp hl.sound.shape).1] at hch
      cases hch
    | ended state => exact ⟨r, hr, state, rfl, rfl⟩

end Codings

section Framing
variable {options : HttpParserOptions} {w : BufferSequence} {p : HttpRequestParser}
  {inputs : List BufferSequence} {request : HttpRequest} {k : Nat}

/-- Where the parser comes to an over-long trailer, the message is cut short. -/
theorem drive_cut (hc : HttpRequestParser.create options = .ok p)
    (hg : Grows w.bytes inputs) (hr : ReflTransGen (Moves w) p q) (ho : OverLong w.bytes q) :
    CutShort w p (drive p inputs) := by
  have hl := create_live hc
  rcases drive_tracks hg (fun u _ _ => hl u) (create_text hc) with hs | hcut
  · have hat : AtLine q := Or.inr (Or.inr (Or.inr ho.1))
    have hend := drive_overLong (comes_live (hl w) hr) ho
    refine ⟨q, q.scanOffset, hr, ho, ?_, (create_flush hc hr hat).le, ?_⟩
    · rw [hs, drive_later (hl w) hr, hend]
    · exact comes_text (hl w) (create_text hc) hr hat
  · exact hcut

theorem wellFormed_terminated (hc : HttpRequestParser.create options = .ok p)
    (hno : ∀ s, ReflTransGen (Moves w) p s → ¬ OverLong w.bytes s)
    (hr : ReflTransGen (Moves w) p r) (hend : r.state = .chunkEnd)
    (hw : WellFormed (w.bytes.take r.scanOffset) request) (hq : ReflTransGen (Moves w) p q) :
    ¬ Unterminated w.bytes q := by
  have hl := create_live hc w
  have hle := (wellFormed_left hc).mp hw
  rcases ReflTransGen.total_of_right_unique moves_unique hq hr with hqr | hrq
  · exact left_forth hl (create_flush (w := w) hc .refl) hq hqr hend hno hle
  · rcases ReflTransGen.cases_head hrq with rfl | ⟨s, hm, -⟩
    · exact left_forth hl (create_flush (w := w) hc .refl) hq .refl hend hno hle
    · exact absurd hm (not_moves_ended (comes_live hl hr) hend)

/-- No round starts at chunk data without CR LF behind it or at an over-long trailer. -/
def Good (w : BufferSequence) (p : HttpRequestParser) : Prop :=
  ∀ q, ReflTransGen (Moves w) p q → ¬ Unterminated w.bytes q ∧ ¬ OverLong w.bytes q

section

variable (hc : HttpRequestParser.create options = .ok p) (hg : Grows w.bytes inputs) (hd : drive p
  inputs = .complete request k) (hco : Coded request)
include hc hg hd hco

theorem wellFormed_good (hw : WellFormed (w.bytes.take k) request) : Good w p := by
  have hno : ∀ q, ReflTransGen (Moves w) p q → ¬ OverLong w.bytes q := by
    intro q hr ho
    have hcut := drive_cut hc hg hr ho
    rw [hd] at hcut
    exact not_wellFormed_cut hc hcut hw
  rcases drive_tracks hg (fun u _ _ => create_live hc u) (create_text hc) with
    hs | ⟨q, _, hr, ho, -⟩
  · rw [hs] at hd
    obtain ⟨r, hr, hend, rfl, rfl⟩ := drive_ended hc hd hco
    intro q hq
    exact ⟨wellFormed_terminated hc hno hr hend hw hq, hno q hq⟩
  · exact absurd ho (hno q hr)

theorem good_wellFormed (hgo : Good w p) : WellFormed (w.bytes.take k) request := by
  have hl := create_live hc
  rcases drive_tracks hg (fun u _ _ => hl u) (create_text hc) with
    hs | ⟨q, _, hr, ho, -⟩
  · rw [hs] at hd
    obtain ⟨r, hr, hend, rfl, rfl⟩ := drive_ended hc hd hco
    have hle := left_back (P := (· = whole r.request [])) (hl w)
      (create_flush (w := w) hc .refl) hr hend hgo rfl
    exact (wellFormed_left hc).mpr hle
  · exact absurd ho (hgo q hr).2

end

/-- A complete chunked message is well formed, unless chunk data has no CR LF behind it or a trailer
line is beyond the limit. -/
theorem chunked_wellFormed_iff (hc : HttpRequestParser.create options = .ok p)
    (hg : Grows w.bytes inputs) (hd : drive p inputs = .complete request k)
    (hcoded : Coded request) :
    WellFormed (w.bytes.take k) request ↔
      ∀ q, ReflTransGen (Moves w) p q → ¬ Unterminated w.bytes q ∧ ¬ OverLong w.bytes q :=
  ⟨wellFormed_good hc hg hd hcoded, good_wellFormed hc hg hd hcoded⟩

end Framing

def rounds (input : BufferSequence) : Nat → HttpRequestParser → HttpRequestParser
  | 0, p => p
  | n + 1, p =>
    match p.step input with
    | .next q => rounds input n q
    | _ => p

theorem rounds_comes (input : BufferSequence) (n : Nat) (p : HttpRequestParser) :
    ReflTransGen (Moves input) p (rounds input n p) := by
  induction n generalizing p with
  | zero => exact .refl
  | succ n ih =>
    unfold rounds
    split
    · rename_i q hs
      exact .head (Or.inl hs) (ih q)
    · exact .refl

def looseChunk : BufferSequence :=
  textOf (chunkedHead ++ octets "1\r\nAXX0\r\n\r\n") (by decide)

def posted (body : Octets) : HttpRequest where
  method := .post
  methodText := octets "POST"
  target := octets "/"
  path := octets "/"
  headers := [⟨octets "host", octets "a"⟩, ⟨octets "transfer-encoding", octets "chunked"⟩]
  body := body

theorem looseChunk_complete :
    drive fresh [looseChunk] = .complete (posted (octets "A")) looseChunk.bytes.length := by
  decide +kernel

theorem chunked_wellFormed_iff_loose :
    drive fresh [looseChunk] = .complete (posted (octets "A")) looseChunk.bytes.length ∧
      (WellFormed (looseChunk.bytes.take looseChunk.bytes.length) (posted (octets "A")) ↔
        ∀ q, ReflTransGen (Moves looseChunk) fresh q →
          ¬ Unterminated looseChunk.bytes q ∧ ¬ OverLong looseChunk.bytes q) :=
  ⟨looseChunk_complete,
    chunked_wellFormed_iff fresh_created (.whole rfl) looseChunk_complete (by decide)⟩

/-- Octets between two chunks are skipped, and an over-long trailer is left. -/
theorem chunked_illFormed :
    (drive fresh [looseChunk] = .complete (posted (octets "A")) looseChunk.bytes.length ∧
      ¬ WellFormed (looseChunk.bytes.take looseChunk.bytes.length) (posted (octets "A"))) ∧
    (drive narrow [longTrailer] = .complete (posted []) 59 ∧
      ¬ WellFormed (longTrailer.bytes.take 59) (posted [])) := by
  refine ⟨⟨looseChunk_complete, fun hw => ?_⟩, by decide +kernel, fun hw => ?_⟩
  · have hgood := wellFormed_good fresh_created (.whole rfl) looseChunk_complete (by decide) hw
    refine (hgood _ (rounds_comes looseChunk 5 fresh)).1 ?_
    unfold Unterminated
    decide +kernel
  · obtain ⟨before, hends⟩ := wellFormed_ends hw
    have hlast : (longTrailer.bytes.take 59).reverse.take 4 = [10, 13, 10, 13] := by
      rw [hends, List.reverse_append]
      rfl
    exact absurd hlast (by decide +kernel)

end IocpRuntime.Proofs.ChunkedFraming
