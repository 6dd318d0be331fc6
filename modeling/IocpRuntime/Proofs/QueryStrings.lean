import IocpRuntime.Http.QueryParams
import IocpRuntime.Lib.Search

namespace IocpRuntime.Proofs.QueryStrings
open Lib Http

def segments (query : Octets) : List Octets := query.splitOn 38

def addSegment (params : StringMap) (segment : Octets) : StringMap :=
  if segment = [] then params
  else match find segment 61 with
    | some eq => emplace params (segment.take eq) (segment.drop (eq + 1))
    | none => emplace params segment []

def splitParams (query : Octets) : StringMap := (segments query).foldl addSegment ∅

theorem lookup_emplace : (emplace map key value).lookup other =
      (map.lookup other).or (if other = key then some value else none) := by
  unfold emplace
  by_cases hk : other = key
  · subst hk
    cases hl : map.lookup other <;> simp [hl, AList.lookup_insert]
  · split <;> simp [AList.lookup_insert_ne hk]

theorem slice_drop (h : u <+: w) (start : Nat) : slice w start u.length = u.drop start := by
  rw [slice_extend h (Nat.le_refl _), slice, ← List.length_drop, List.take_length]

/-- A round enters the first segment, unless its key runs over into the next one. -/
theorem round_cases (hne : query ≠ []) (rounds : Nat) (params : StringMap) :
    (38 ∉ query ∧ queryRounds (rounds + 1) query params = addSegment params query) ∨
      ∃ segment rest, query = segment ++ 38 :: rest ∧ 38 ∉ segment ∧
        (61 ∈ segment ∧ queryRounds (rounds + 1) query params =
            queryRounds rounds rest (addSegment params segment) ∨
          61 ∉ segment ∧ ∃ key value, 38 ∈ key ∧ queryRounds (rounds + 1) query params =
            queryRounds rounds rest (emplace params key value)) := by
  rw [queryRounds, if_neg hne]
  rcases find_cut query 38 with ⟨hf, ha⟩ | ⟨segment, rest, rfl, ha, hf⟩
  · refine .inl ⟨ha, ?_⟩
    have hs := slice_drop (List.prefix_refl query)
    rw [addSegment, if_neg hne, hf]
    cases he : find query 61 with
    | none => rfl
    | some eq =>
      have hlt : eq < query.length := by
        rcases find_cut query 61 with ⟨hn, -⟩ | ⟨key, value, rfl, -, hn⟩
        · cases he.symm.trans hn
        · cases he.symm.trans hn
          simp
      simp [hlt, hs]
  · have hd : (segment ++ 38 :: rest).drop (segment.length + 1) = rest := by
      rw [← List.drop_drop, List.drop_left, List.drop_one, List.tail_cons]
    refine .inr ⟨segment, rest, rfl, ha, ?_⟩
    rcases find_cut segment 61 with ⟨-, hn⟩ | ⟨key, value, hq, hn, he⟩
    · refine .inr ⟨hn, ?_⟩
      simp only [hf, hd]
      rcases find_cut (segment ++ 38 :: rest) 61 with ⟨he, -⟩ | ⟨key, value, hq, -, he⟩
      · rw [he]
        exact ⟨_, _, by simp, rfl⟩
      · rw [he]
        refine ⟨_, _, ?_, rfl⟩
        dsimp only
        rw [hq, List.take_left]
        rcases List.append_eq_append_iff.mp hq with ⟨more, rfl, hm⟩ | ⟨more, rfl, hm⟩
        · cases more with
          | nil => cases hm
          | cons c more => simp [(List.cons.inj hm).1]
        · cases more with
          | nil => cases hm
          | cons c more => simp [(List.cons.inj hm).1] at hn
    · have hl : key.length < segment.length := by simp [hq]
      have hp : find (segment ++ 38 :: rest) 61 = some (key.length + 0) :=
        find_split (by rw [hq]; simp; rfl) hn
      refine .inl ⟨by simp [hq], ?_⟩
      rw [addSegment, if_neg (by simp [hq]), he, hf, hp]
      simp only [Option.getD_some, Nat.add_zero, if_pos hl, hd, slice_drop (List.prefix_append segment _),
        List.take_append_of_le_length hl.le]

theorem addSegment_keeps (h : (params.lookup key).isSome) (segment : Octets) :
    ((addSegment params segment).lookup key).isSome := by
  unfold addSegment
  split
  · exact h
  · split <;> simp [lookup_emplace, h]

theorem rounds_keep (h : (params.lookup key).isSome) (rounds : Nat) (query : Octets) :
    ((queryRounds rounds query params).lookup key).isSome := by
  induction rounds generalizing query params with
  | zero => exact h
  | succ rounds ih =>
    by_cases hne : query = []
    · simp [queryRounds, hne, h]
    · rcases round_cases hne rounds params with
        ⟨-, hq⟩ | ⟨_, rest, -, -, ⟨-, hq⟩ | ⟨-, _, _, -, hq⟩⟩ <;> rw [hq]
      · exact addSegment_keeps h query
      · exact ih (addSegment_keeps h _) rest
      · exact ih (by simp [lookup_emplace, h]) rest

theorem segments_last (segment : Octets) :
    (segment :: segments rest).dropLast = segment :: (segments rest).dropLast :=
  List.dropLast_cons_of_ne_nil (List.splitOn_ne_nil _ _)

/-- Where every segment but the last has a `=`, each of them is entered. -/
theorem rounds_split (hr : query.length ≤ rounds)
    (h : ∀ segment ∈ (segments query).dropLast, 61 ∈ segment) :
    queryRounds rounds query params = (segments query).foldl addSegment params := by
  induction rounds generalizing query params with
  | zero =>
    rw [List.eq_nil_of_length_eq_zero (Nat.le_zero.mp hr)]
    simp [queryRounds, segments, addSegment]
  | succ rounds ih =>
    by_cases hne : query = []
    · simp [queryRounds, segments, addSegment, hne]
    · rcases round_cases hne rounds params with ⟨ha, hq⟩ | ⟨segment, rest, rfl, ha, hq⟩
      · simp [hq, segments, List.splitOn_eq_singleton ha]
      · rw [segments, List.splitOn_append_cons_self_of_not_mem ha, ← segments] at h ⊢
        rw [segments_last, List.forall_mem_cons] at h
        rcases hq with ⟨-, hq⟩ | ⟨hn, -⟩
        · rw [hq, ih (by simp at hr; omega) h.2, List.foldl_cons]
        · exact absurd h.1 hn

/-- A segment without `=` in front of another one leaves a key with `&` in it. -/
theorem rounds_clean (hr : query.length ≤ rounds)
    (h : ∀ key, 38 ∈ key → (queryRounds rounds query params).lookup key = none) :
    ∀ segment ∈ (segments query).dropLast, 61 ∈ segment := by
  induction rounds generalizing query params with
  | zero =>
    rw [List.eq_nil_of_length_eq_zero (Nat.le_zero.mp hr)]
    simp [segments]
  | succ rounds ih =>
    by_cases hne : query = []
    · simp [segments, hne]
    · rcases round_cases hne rounds params with ⟨ha, -⟩ | ⟨segment, rest, rfl, ha, hq⟩
      · simp [segments, List.splitOn_eq_singleton ha]
      · rw [segments, List.splitOn_append_cons_self_of_not_mem ha, ← segments, segments_last,
          List.forall_mem_cons]
        rcases hq with ⟨hm, hq⟩ | ⟨-, key, value, hk, hq⟩
        · exact ⟨hm, ih (by simp at hr; omega) (hq ▸ h)⟩
        · have hs : (emplace params key value |>.lookup key).isSome := by simp [lookup_emplace]
          have hn := h key hk
          rw [hq] at hn
          exact absurd (rounds_keep hs rounds rest) (by simp [hn])

theorem segments_clean : ∀ segment ∈ segments query, 38 ∉ segment := by
  induction query with
  | nil => simp [segments]
  | cons c query ih =>
    unfold segments at ih ⊢
    rw [List.splitOn_cons_eq_if_modifyHead]
    split
    · simpa using ih
    · rename_i hc
      cases hs : query.splitOn 38 with
      | nil => simp
      | cons first rest => simp_all [Ne.symm]

theorem split_clean {l : List Octets} (hk : 38 ∈ key) (hl : ∀ segment ∈ l, 38 ∉ segment)
    (hp : params.lookup key = none) : (l.foldl addSegment params).lookup key = none := by
  induction l generalizing params with
  | nil => exact hp
  | cons segment l ih =>
    obtain ⟨hs, hl⟩ := List.forall_mem_cons.mp hl
    refine ih hl ?_
    unfold addSegment
    split
    · exact hp
    · split <;> rw [lookup_emplace, hp, Option.none_or, if_neg]
      · rintro rfl
        exact hs (List.mem_of_mem_take hk)
      · rintro rfl
        exact hs hk

/-- A query is split as it should be if and only if every segment but the last has a `=`. -/
theorem query_split_iff (query : Octets) :
    (∀ key, (queryParams query).lookup key = (splitParams query).lookup key) ↔
      ∀ segment ∈ (segments query).dropLast, 61 ∈ segment := by
  constructor
  · intro h
    refine rounds_clean (Nat.le_refl _) fun key hk => (h key).trans ?_
    exact split_clean hk segments_clean (AList.lookup_empty _)
  · intro h key
    rw [queryParams, rounds_split (Nat.le_refl _) h, splitParams]

/-- The name of a flag runs on into the parameter behind it. -/
theorem flag_runs_on : (queryParams (octets "draft&id=7")).lookup (octets "draft&id") = some [] ∧
    (splitParams (octets "draft&id=7")).lookup (octets "draft&id") = none := by
  decide +kernel

end IocpRuntime.Proofs.QueryStrings
