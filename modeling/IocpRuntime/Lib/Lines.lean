import IocpRuntime.Lib.Octets

/-! Lines ended by CR LF, read up to a length limit from input that arrives in
pieces. A scan can stop in the middle of a line and go on when there is more. -/

namespace IocpRuntime.Lib.Lines

/-- Text without CR and LF. -/
def Clean (text : Octets) : Prop := ∀ c ∈ text, c ≠ 13 ∧ c ≠ 10

def lineThen (text rest : Octets) : Octets := text ++ 13 :: 10 :: rest

/-- Where the first line ends is not open. -/
theorem lineThen_cancel (ha : Clean a) (hb : Clean b)
    (h : lineThen a x = lineThen b y) : a = b ∧ x = y := by
  unfold lineThen at h
  induction a generalizing b with
  | nil =>
    cases b with
    | nil =>
      injection h with _ h
      injection h with _ h
      exact ⟨rfl, h⟩
    | cons d b =>
      injection h with hd _
      exact absurd hd.symm (hb d List.mem_cons_self).1
  | cons c a ih =>
    cases b with
    | nil =>
      injection h with hc _
      exact absurd hc (ha c List.mem_cons_self).1
    | cons d b =>
      injection h with hcd h
      obtain ⟨hab, hxy⟩ := ih (fun e he => ha e (List.mem_cons_of_mem _ he))
        (fun e he => hb e (List.mem_cons_of_mem _ he)) h
      exact ⟨by rw [hcd, hab], hxy⟩

def split : Octets → List Octets
  | [] => [[]]
  | [c] => [[c]]
  | c :: d :: rest =>
    if c = 13 ∧ d = 10 then [] :: split rest else (split (d :: rest)).modifyHead (c :: ·)

theorem split_ne_nil (text : Octets) : split text ≠ [] := by
  fun_induction split text <;> simp_all

theorem split_text (hc : Clean text) (rest : Octets) :
    split (text ++ rest) = (split rest).modifyHead (text ++ ·) := by
  induction text with
  | nil => exact (congrFun List.modifyHead_id _).symm
  | cons c text ih =>
    have hs : ∀ rest, split (c :: rest) = (split rest).modifyHead (c :: ·) := by
      intro rest
      cases rest <;> simp [split, (hc c List.mem_cons_self).1]
    rw [List.cons_append, hs, ih fun d hd => hc d (List.mem_cons_of_mem _ hd)]
    simp [List.modifyHead_modifyHead, Function.comp_def]

/-- A line break cuts, whatever stands around it. -/
theorem split_break : split (text ++ 13 :: 10 :: rest) = split text ++ split rest := by
  fun_induction split text with
  | case1 => simp [split]
  | case2 c => simp [split]
  | case3 c d text hb ih => simp [split, hb, ih]
  | case4 c d text hb ih =>
    obtain ⟨line, lines, hl⟩ := List.exists_cons_of_ne_nil (split_ne_nil (d :: text))
    have hs : split (c :: (d :: text ++ 13 :: 10 :: rest)) =
        (split (d :: text ++ 13 :: 10 :: rest)).modifyHead (c :: ·) := by
      simp [split, hb]
    rw [List.cons_append, hs, ih, hl]
    rfl

theorem split_line (hc : Clean text) : split (lineThen text rest) = text :: split rest := by
  have hs : split text = [text] := by simpa [split] using split_text hc []
  rw [lineThen, split_break, hs, List.singleton_append]

/-- A text is one line when no line break is in it. -/
theorem split_single : split text = [text] ↔ ¬ [13, 10] <:+: text := by
  constructor
  · rintro hs ⟨a, b, rfl⟩
    rw [List.append_assoc, List.cons_append, List.singleton_append, split_break] at hs
    have hl := congrArg List.length hs
    have ha := List.length_pos_iff.mpr (split_ne_nil a)
    have hb := List.length_pos_iff.mpr (split_ne_nil b)
    simp at hl
    omega
  · intro hn
    fun_induction split text with
    | case1 | case2 => rfl
    | case3 c d text hb ih => exact absurd ⟨[], text, by simp [hb]⟩ hn
    | case4 c d text hb ih =>
      rw [ih fun hi => hn (hi.trans (List.suffix_cons c _).isInfix)]
      rfl

/-- What a scan finds. `seen` and `length` count from the start of the line. -/
inductive Scan where
  | paused (seen : Nat)
  | line (length : Nat)
  | malformed
  | tooLong
  deriving DecidableEq, Repr

/-- Scan `data`, `seen` octets into a line. A CR at the end of the data waits
for the octet behind it. -/
def scan (limit : Nat) : Nat → Octets → Scan
  | seen, [] => .paused seen
  | seen, c :: rest =>
    if c = 10 then .malformed
    else if c = 13 then
      match rest with
      | [] => .paused seen
      | next :: _ =>
        if next ≠ 10 then .malformed else if seen > limit then .tooLong else .line seen
    else if seen + 1 > limit then .tooLong
    else scan limit (seen + 1) rest

/-- The ways a scan can stop, and where. -/
inductive Stop (limit seen : Nat) : Octets → Scan → Prop
  | empty : Stop limit seen [] (.paused seen)
  | lastCr : Stop limit seen [13] (.paused seen)
  | line (more : Octets) (fits : seen ≤ limit) : Stop limit seen (13 :: 10 :: more) (.line seen)
  | longLine (more : Octets) (long : limit < seen) : Stop limit seen (13 :: 10 :: more) .tooLong
  | bareLf (more : Octets) : Stop limit seen (10 :: more) .malformed
  | bareCr (more : Octets) {c : UInt8} (bare : c ≠ 10) :
      Stop limit seen (13 :: c :: more) .malformed
  | long (more : Octets) {c : UInt8} (text : c ≠ 13 ∧ c ≠ 10) (long : limit < seen + 1) :
      Stop limit seen (c :: more) .tooLong

theorem scan_octet (h : c ≠ 13 ∧ c ≠ 10) : scan limit seen (c :: rest) =
      if seen + 1 > limit then .tooLong else scan limit (seen + 1) rest := by
  conv_lhs => unfold scan
  exact (if_neg h.2).trans (if_neg h.1)

theorem Stop.scan (h : Stop limit seen rest found) : scan limit seen rest = found := by
  cases h with
  | empty => rfl
  | lastCr => rfl
  | line more fits => simp [Lines.scan, Nat.not_lt.mpr fits]
  | longLine more long => simp [Lines.scan, long]
  | bareLf more => simp [Lines.scan]
  | bareCr more bare => simp [Lines.scan, bare]
  | long more text long => rw [scan_octet text, if_pos long]

/-- More data does not change a verdict. -/
theorem Stop.extend (h : Stop limit seen rest found) (hp : ∀ n, found ≠ .paused n) :
    Stop limit seen (rest ++ more) found := by
  cases h with
  | empty => exact absurd rfl (hp seen)
  | lastCr => exact absurd rfl (hp seen)
  | line _ fits => exact .line _ fits
  | longLine _ long => exact .longLine _ long
  | bareLf _ => exact .bareLf _
  | bareCr _ bare => exact .bareCr _ bare
  | long _ text long => exact .long _ text long

theorem scan_text (hc : Clean text) (hl : text = [] ∨ seen + text.length ≤ limit) :
    scan limit seen (text ++ rest) = scan limit (seen + text.length) rest := by
  induction text generalizing seen with
  | nil => rfl
  | cons c text ih =>
    have hlen : seen + (text.length + 1) ≤ limit := by
      rcases hl with h | h
      · cases h
      · exact h
    rw [List.cons_append, scan_octet (hc c List.mem_cons_self), if_neg (by omega),
      ih (fun d hd => hc d (List.mem_cons_of_mem _ hd)) (Or.inr (by omega)), List.length_cons]
    congr 1
    omega

/-- A scan passes over some text and stops. -/
def Stops (limit seen : Nat) (data : Octets) : Prop :=
  ∃ text rest, data = text ++ rest ∧ Clean text ∧ (text = [] ∨ seen + text.length ≤ limit) ∧
    Stop limit (seen + text.length) rest (scan limit seen data)

theorem Stop.stops (h : Stop limit seen data found) : Stops limit seen data := by
  refine ⟨[], data, rfl, (fun _ hc => by cases hc), Or.inl rfl, ?_⟩
  rw [h.scan]
  exact h

theorem scan_stops (limit seen : Nat) (data : Octets) : Stops limit seen data := by
  induction data generalizing seen with
  | nil => exact Stop.empty.stops
  | cons c rest ih =>
    by_cases h10 : c = 10
    · subst h10
      exact (Stop.bareLf rest).stops
    by_cases h13 : c = 13
    · subst h13
      cases rest with
      | nil => exact Stop.lastCr.stops
      | cons next more =>
        by_cases hn : next = 10
        · subst hn
          rcases Nat.lt_or_ge limit seen with hl | hl
          · exact (Stop.longLine more hl).stops
          · exact (Stop.line more hl).stops
        · exact (Stop.bareCr more hn).stops
    by_cases hl : limit < seen + 1
    · exact (Stop.long rest ⟨h13, h10⟩ hl).stops
    obtain ⟨text, tail, hda, hc, hlen, hs⟩ := ih (seen + 1)
    have hco : seen + (c :: text).length = seen + 1 + text.length := by
      rw [List.length_cons]
      omega
    refine ⟨c :: text, tail, by rw [hda, List.cons_append], ?_, Or.inr ?_, ?_⟩
    · intro d hd
      rcases List.mem_cons.mp hd with rfl | hd
      · exact ⟨h13, h10⟩
      · exact hc d hd
    · rw [hco]
      rcases hlen with rfl | hlen
      · rw [List.length_nil]
        omega
      · exact hlen
    · rw [hco, scan_octet ⟨h13, h10⟩, if_neg hl]
      exact hs

/-- A verdict on a part of the data is the verdict on the whole. -/
theorem scan_append (hp : ∀ n, scan limit seen data ≠ .paused n) :
    scan limit seen (data ++ more) = scan limit seen data := by
  obtain ⟨text, rest, hd, hc, hlen, hs⟩ := scan_stops limit seen data
  conv_lhs => rw [hd, List.append_assoc, scan_text hc hlen]
  exact (hs.extend hp).scan

/-- A paused scan, resumed where it stopped, finds what a scan of the whole finds. -/
theorem scan_resume (more : Octets) (h : scan limit seen data = .paused n) :
    seen ≤ n ∧ n ≤ seen + data.length ∧
      scan limit n ((data ++ more).drop (n - seen)) = scan limit seen (data ++ more) := by
  obtain ⟨text, rest, hd, hc, hlen, hs⟩ := scan_stops limit seen data
  rw [h] at hs
  have hn : n = seen + text.length := by
    cases hs with
    | empty => rfl
    | lastCr => rfl
  subst hn
  refine ⟨Nat.le_add_right _ _, ?_, ?_⟩
  · rw [hd, List.length_append]
    omega
  · rw [hd, List.append_assoc, scan_text hc hlen, Nat.add_sub_cancel_left, List.drop_left]

theorem scan_line (h : scan limit seen data = .line n) :
    ∃ text more, data = text ++ 13 :: 10 :: more ∧ Clean text ∧ n = seen + text.length ∧
      n ≤ limit := by
  obtain ⟨text, rest, hd, hc, -, hs⟩ := scan_stops limit seen data
  rw [h] at hs
  cases hs with
  | line more fits => exact ⟨text, more, hd, hc, rfl, fits⟩

/-- A complete line is found in every part of the data that reaches behind it. -/
theorem scan_line_part
    (h : scan limit seen data = .line n) (hp : part <+: data) (hn : n + 2 ≤ seen + part.length) :
    scan limit seen part = .line n := by
  obtain ⟨text, more, rfl, hc, rfl, hf⟩ := scan_line h
  have hl : text ++ [13, 10] <+: part := by
    refine List.prefix_of_prefix_length_le ⟨more, by simp⟩ hp ?_
    simp only [List.length_append, List.length_cons, List.length_nil]
    omega
  obtain ⟨rest, rfl⟩ := hl
  rw [List.append_assoc, scan_text hc (Or.inr hf)]
  exact (Stop.line rest hf).scan

/-- What a paused scan has passed over is text. -/
theorem scan_paused_clean
    (h : scan limit seen data = .paused n) : Clean (data.take (n - seen)) := by
  obtain ⟨text, rest, hd, hc, -, hs⟩ := scan_stops limit seen data
  rw [h] at hs
  have hn : n - seen = text.length := by
    cases hs with
    | empty => exact Nat.add_sub_cancel_left _ _
    | lastCr => exact Nat.add_sub_cancel_left _ _
  rw [hn, hd, List.take_left]
  exact hc

/-- With room for an octet, a line that is too long starts with one of text. -/
theorem scan_tooLong_first (h : scan limit seen data = .tooLong) (hr : seen + 1 ≤ limit) :
    ∃ c rest, data = c :: rest ∧ scan limit seen [c] = .paused (seen + 1) := by
  obtain ⟨text, rest, hd, hc, -, hs⟩ := scan_stops limit seen data
  rw [h] at hs
  cases text with
  | nil =>
    cases hs with
    | longLine _ long => exact absurd long (by rw [List.length_nil]; omega)
    | long _ _ long => exact absurd long (by rw [List.length_nil]; omega)
  | cons c text =>
    refine ⟨c, text ++ rest, hd, ?_⟩
    rw [scan_octet (hc c List.mem_cons_self), if_neg (Nat.not_lt.mpr hr)]
    rfl

end IocpRuntime.Lib.Lines
