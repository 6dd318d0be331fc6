import Mathlib.Data.List.TakeWhile
import IocpRuntime.Http2.Requests

namespace IocpRuntime.Proofs.RequestFields
open Lib Http Http2 Http2.Requests

variable {a b : Assembly}

/-- A target is cut at its first question mark. -/
theorem find_cut (h : find value 63 = some index) : value.takeWhile (· != 63) = value.take index ∧
      (value.dropWhile (· != 63)).drop 1 = value.drop (index + 1) := by
  have hi : value.findIdx (fun octet => !(octet != 63)) = index := by
    simp only [find, List.drop_zero, Option.map_eq_some_iff, Nat.add_zero, exists_eq_right] at h
    simpa [bne] using (List.findIdx?_eq_some_iff_findIdx_eq.mp h).2
  rw [List.takeWhile_eq_take_findIdx_not, List.dropWhile_eq_drop_findIdx_not, hi, List.drop_drop]
  exact ⟨rfl, rfl⟩

theorem find_none (h : find value 63 = none) :
    value.takeWhile (· != 63) = value ∧ (value.dropWhile (· != 63)).drop 1 = [] := by
  have hall : ∀ octet ∈ value, (octet != 63) = true := by
    simpa [find] using h
  rw [List.takeWhile_eq_self_iff.mpr hall, List.dropWhile_eq_nil_iff.mpr hall]
  exact ⟨rfl, rfl⟩

/-- The method and the target are read where they stand. -/
structure Parsed (a : Assembly) : Prop where
  method : a.hasMethod = true → a.request.method = parseMethod a.request.methodText
  target : a.hasPath = true → a.request.path = a.request.target.takeWhile (· != 63) ∧
    a.request.query = (a.request.target.dropWhile (· != 63)).drop 1
  pathless : a.hasPath = false → a.request.query = []

/-- What one field can do. -/
structure Added (field : HttpHeader) (a b : Assembly) : Prop where
  connection : b.request.connectionId = a.request.connectionId
  stream : b.request.requestId = a.request.requestId
  method : if field.name = octets ":method" then
      a.hasMethod = false ∧ b.hasMethod = true ∧ b.request.methodText = field.value
    else b.hasMethod = a.hasMethod ∧ b.request.methodText = a.request.methodText
  target : if field.name = octets ":path" then
      a.hasPath = false ∧ b.hasPath = true ∧ b.request.target = field.value
    else b.hasPath = a.hasPath ∧ b.request.target = a.request.target
  headers : b.request.headers = a.request.headers ++ (carried field).toList
  parsed : Parsed a → Parsed b

theorem Added.headers_only (hm : field.name ≠ octets ":method") (hp : field.name ≠ octets ":path")
    (hh : fields = a.request.headers ++ (carried field).toList) :
    Added field a { a with
      request := { a.request with headers := fields }, sawRegularHeader := seen } where
  connection := rfl
  stream := rfl
  method := by simp [hm]
  target := by simp [hp]
  headers := hh
  parsed h := ⟨h.method, h.target, h.pathless⟩

theorem add_added (hadd : a.add field = some b) : Added field a b := by
  obtain ⟨name, value⟩ := field
  unfold Assembly.add at hadd
  dsimp only at hadd
  split at hadd
  · cases hadd
  split at hadd
  · cases hadd
  by_cases hm : name = octets ":method"
  · subst hm
    rw [if_pos rfl] at hadd
    split at hadd
    · cases hadd
    rename_i hnew
    cases hadd
    exact ⟨rfl, rfl, ⟨Bool.eq_false_iff.mpr hnew, rfl, rfl⟩, ⟨rfl, rfl⟩, (List.append_nil _).symm,
      fun h => ⟨fun _ => rfl, h.target, h.pathless⟩⟩
  rw [if_neg hm] at hadd
  by_cases hp : name = octets ":path"
  · subst hp
    rw [if_pos rfl] at hadd
    split at hadd
    · cases hadd
    rename_i hf
    have hnew := Bool.eq_false_iff.mpr hf
    cases hadd
    cases hfi : find value 63 with
    | none =>
      obtain ⟨hta, hd⟩ := find_none hfi
      exact ⟨rfl, rfl, ⟨rfl, rfl⟩, ⟨hnew, rfl, rfl⟩, (List.append_nil _).symm,
        -- the query of the request is left as it is, which is empty
        fun h => ⟨h.method, fun _ => ⟨hta.symm, (h.pathless hnew).trans hd.symm⟩, nofun⟩⟩
    | some index =>
      obtain ⟨hta, hd⟩ := find_cut hfi
      exact ⟨rfl, rfl, ⟨rfl, rfl⟩, ⟨hnew, rfl, rfl⟩, (List.append_nil _).symm,
        fun h => ⟨h.method, fun _ => ⟨hta.symm, hd.symm⟩, nofun⟩⟩
  rw [if_neg hp] at hadd
  split at hadd
  · rename_i ha
    cases hadd
    subst ha
    exact .headers_only hm hp rfl
  rename_i ha
  split at hadd
  · rename_i hs
    cases hadd
    subst hs
    exact .headers_only hm hp (List.append_nil _).symm
  split at hadd
  · cases hadd
  rename_i hps
  split at hadd
  · cases hadd
  cases hadd
  refine .headers_only hm hp ?_
  have hhe : name.head? ≠ some 58 := by simpa using hps
  rw [carried, if_neg ha, if_neg hhe]
  rfl

/-- What the fields so far have made of the request. -/
structure Partly (connectionId requestId : Nat) (fields : List HttpHeader) (a : Assembly) :
    Prop extends Parsed a where
  connection : a.request.connectionId = connectionId
  stream : a.request.requestId = requestId
  methods : fields.filter (fun field => field.name = octets ":method") =
    if a.hasMethod then [⟨octets ":method", a.request.methodText⟩] else []
  targets : fields.filter (fun field => field.name = octets ":path") =
    if a.hasPath then [⟨octets ":path", a.request.target⟩] else []
  headers : a.request.headers = fields.filterMap carried

/-- A pseudo-header that may occur once: the fields of its name seen so far. -/
theorem once (hd : done.filter (fun h => h.name = name) = if seen then [⟨name, text⟩] else [])
    (hadd : if h.name = name then seen = false ∧ seen' = true ∧ text' = h.value
      else seen' = seen ∧ text' = text) :
    (done ++ [h]).filter (fun (h : HttpHeader) => h.name = name) =
      if seen' then [⟨name, text'⟩] else [] := by
  rw [List.filter_append, hd]
  by_cases hn : h.name = name
  · rw [if_pos hn] at hadd
    obtain ⟨rfl, rfl, rfl⟩ := hadd
    subst hn
    simp
  · rw [if_neg hn] at hadd
    obtain ⟨rfl, rfl⟩ := hadd
    simp [hn]

theorem Partly.add {connectionId : Nat} (h : Partly connectionId requestId fields a)
    (hadd : Added field a b) : Partly connectionId requestId (fields ++ [field]) b where
  toParsed := hadd.parsed h.toParsed
  connection := hadd.connection.trans h.connection
  stream := hadd.stream.trans h.stream
  methods := once h.methods hadd.method
  targets := once h.targets hadd.target
  headers := by
    rw [hadd.headers, h.headers, List.filterMap_append]
    cases hc : carried field with
    | none => simp [hc]
    | some header => simp [hc]

theorem Partly.fold {connectionId : Nat}
    (h : Partly connectionId requestId fields a) (hfo : rest.foldlM Assembly.add a = some b) :
    Partly connectionId requestId (fields ++ rest) b := by
  induction rest generalizing fields a with
  | nil =>
    cases hfo
    rw [List.append_nil]
    exact h
  | cons field rest ih =>
    obtain ⟨mid, hadd, hr⟩ := Option.bind_eq_some_iff.mp hfo
    rw [List.append_cons]
    exact ih (h.add (add_added hadd)) hr

/-- The request that `HandleHeaders` makes of the fields says what they say. -/
theorem assembled_carries {connectionId : Nat} {id : UInt32}
    (h : assembleRequest connectionId id fields = some a) (hc : a.complete = true) :
    a.request.connectionId = connectionId ∧ a.request.requestId = id.toNat ∧
      Carries fields a.request := by
  have hs : Partly connectionId id.toNat []
      { request := { connectionId := connectionId, requestId := id.toNat } } :=
    ⟨⟨nofun, nofun, fun _ => rfl⟩, rfl, rfl, rfl, rfl, rfl⟩
  have hpa := hs.fold h
  rw [List.nil_append] at hpa
  simp only [Assembly.complete, Bool.and_eq_true] at hc
  obtain ⟨⟨hm, hp⟩, -⟩ := hc
  obtain ⟨hpath, hquery⟩ := hpa.target hp
  exact ⟨hpa.connection, hpa.stream, hpa.methods.trans (if_pos hm), hpa.method hm,
    hpa.targets.trans (if_pos hp), hpath, hquery, hpa.headers⟩

end IocpRuntime.Proofs.RequestFields
