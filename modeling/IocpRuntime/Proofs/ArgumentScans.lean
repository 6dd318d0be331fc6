import IocpRuntime.Lib.Search
import IocpRuntime.Server.CommandLine

namespace IocpRuntime.Proofs.ArgumentScans
open Lib Buffer Server

def arguments : Item → List Octets
  | .help flag => [flag]
  | .config args _ => args
  | .option args _ _ => args
  | .positional text => [text]

/-- Every reading of the one loop is one of the other. -/
def Agrees (next other : Next) : Prop :=
  ∀ arg rest reading, next arg rest = .ok reading → other arg rest = .ok reading

/-- A reading takes the argument and perhaps some of those behind it. -/
def Advances (next : Next) : Prop :=
  ∀ arg rest reading, next arg rest = .ok reading →
    ∃ more, arguments reading.1 = arg :: more ∧ more ++ reading.2 = rest

/-- A loop that comes to its end has read items, and so does every loop that agrees with it. -/
theorem run_items {σ : Type} {s t : σ} {act : σ → Item → Except Thrown σ} (ha : Advances next)
    (hl : args.length ≤ rounds) (h : runLoop next act rounds s args = .ok t) :
    ∃ items : List Item, items.flatMap arguments = args ∧ items.foldlM act s = .ok t ∧
      ∀ {other : Next}, Agrees next other → ∀ {τ : Type} (act' : τ → Item → Except Thrown τ) s',
        runLoop other act' rounds s' args = items.foldlM act' s' := by
  induction rounds generalizing s args with
  | zero =>
    cases List.length_eq_zero_iff.mp (Nat.le_zero.mp hl)
    exact ⟨[], rfl, h, fun _ _ _ _ => rfl⟩
  | succ rounds ih =>
    cases args with
    | nil => exact ⟨[], rfl, h, fun _ _ _ _ => rfl⟩
    | cons arg rest =>
      cases hn : next arg rest with
      | error error => simp [runLoop, hn] at h
      | ok reading =>
        obtain ⟨item, left⟩ := reading
        obtain ⟨more, hi, hm⟩ := ha arg rest _ hn
        simp only [runLoop, hn] at h
        obtain ⟨next, hs, hr⟩ := bind_ok h
        have hle : left.length ≤ rounds := by
          have hlen := congrArg List.length hm
          simp only [List.length_append, List.length_cons] at hlen hl
          omega
        obtain ⟨items, hf, ht, ho⟩ := ih hle hr
        refine ⟨item :: items, ?_, ?_, fun hag _ act' s' => ?_⟩
        · simp [hi, hf, hm]
        · rw [List.foldlM_cons, hs]
          exact ht
        · simp only [runLoop, hag arg rest _ hn, List.foldlM_cons]
          exact bind_congr fun s => ho hag act' s

/-- An option is the text behind the hyphens, with a `=` or without. -/
theorem nameAndValue_cases
    (h : nameAndValue missing after arg rest = .ok reading) :
    ∃ more name value, reading.1 = .option (arg :: more) name value ∧ more ++ reading.2 = rest ∧
      (arg.drop 2 = name ∨ arg.drop 2 = name ++ 61 :: value) ∧
      ∀ other after, nameAndValue other after arg rest = .ok reading := by
  unfold nameAndValue at h ⊢
  dsimp only at h ⊢
  rcases find_cut (arg.drop 2) 61 with ⟨hf, -⟩ | ⟨name, value, hs, -, hf⟩
  · rw [hf] at h ⊢
    cases rest with
    | nil => cases h
    | cons value rest =>
      cases h
      exact ⟨[value], _, value, rfl, rfl, .inl rfl, fun _ _ => rfl⟩
  · rw [hf] at h ⊢
    cases h
    exact ⟨[], _, _, rfl, rfl, .inr (by simp [hs]), fun _ _ => rfl⟩

theorem cli_advances : Advances CliParser.next := by
  intro arg rest reading h
  unfold CliParser.next at h
  split_ifs at h with hh hc hp hd
  · cases h
    exact ⟨[], rfl, rfl⟩
  · cases rest with
    | nil => cases h
    | cons path rest =>
      cases h
      exact ⟨[path], rfl, rfl⟩
  · cases h
    exact ⟨[], rfl, rfl⟩
  · obtain ⟨more, name, value, hi, hm, -⟩ := nameAndValue_cases h
    exact ⟨more, by rw [hi]; rfl, hm⟩
  · cases h
    exact ⟨[], rfl, rfl⟩

theorem http_agrees : Agrees CliParser.next HttpApplication.next := by
  intro arg rest reading h
  unfold CliParser.next at h
  unfold HttpApplication.next
  split_ifs at h ⊢
  · exact h
  · cases rest with
    | nil => cases h
    | cons path rest => exact h
  · exact h
  · exact h
  · exact h

theorem echo_agrees : Agrees CliParser.next Echo.next := by
  intro arg rest reading h
  unfold CliParser.next at h
  split_ifs at h with hh hc hp hd
  · simpa [Echo.next, hh] using h
  · subst hc
    cases rest with
    | nil => cases h
    | cons path rest => exact h
  · obtain ⟨path, rfl⟩ := List.isPrefixOf_iff_prefix.mp hp
    exact h
  · obtain ⟨more, name, value, hi, -, ht, ho⟩ := nameAndValue_cases h
    obtain ⟨item, left⟩ := reading
    obtain ⟨body, rfl⟩ := List.isPrefixOf_iff_prefix.mp hd
    have hn : name ≠ octets "config" := by
      rintro rfl
      rcases ht with ht | ht
      · exact hc (congrArg (octets "--" ++ ·) ht)
      · refine hp (List.isPrefixOf_iff_prefix.mpr ⟨value, ?_⟩)
        exact (congrArg (octets "--" ++ ·) ht).symm
    cases hi
    simp [Echo.next, hh, hd, ho, hn]
  · simpa [Echo.next, hh, hd] using h

/-- Where `CliParser` does not throw, the three loops take the arguments for the same items. -/
theorem scanners_agree (args : List Octets) (cli : CliParser)
    (hparsed : CliParser.create args = .ok cli) :
    ∃ items : List Item, items.flatMap arguments = args ∧
      items.foldlM CliParser.act {} = .ok cli ∧
      ∀ (σ : Type) (applyOption : σ → Octets → Octets → Except Thrown σ) (showHelp : σ → σ)
        (options : σ),
        Echo.applyCommandLine applyOption showHelp options args =
            (items.foldlM (Echo.act applyOption showHelp) (false, options)).map Prod.snd ∧
          HttpApplication.applyCommandLine applyOption showHelp options args =
            (items.foldlM (HttpApplication.act applyOption showHelp) (false, options)).map Prod.snd := by
  obtain ⟨items, hargs, hcli, hothers⟩ := run_items cli_advances (Nat.le_refl _) hparsed
  refine ⟨items, hargs, hcli, fun σ applyOption showHelp options => ⟨?_, ?_⟩⟩
  · rw [Echo.applyCommandLine, hothers echo_agrees]
  · rw [HttpApplication.applyCommandLine, hothers http_agrees]

/-- `--help` behind `--config` is a path to all of them. -/
theorem scanners_agree_path :
    let args := [octets "--config", octets "--help", octets "8080"]
    let cli : CliParser :=
      { configFile := some (octets "--help"), positional := [octets "8080"] }
    CliParser.create args = .ok cli ∧
      ∃ items : List Item, items.flatMap arguments = args ∧
        items.foldlM CliParser.act {} = .ok cli := by
  intro args cli
  have hparsed : CliParser.create args = .ok cli := rfl
  obtain ⟨items, hargs, hcli, -⟩ := scanners_agree args cli hparsed
  exact ⟨hparsed, items, hargs, hcli⟩

end IocpRuntime.Proofs.ArgumentScans
