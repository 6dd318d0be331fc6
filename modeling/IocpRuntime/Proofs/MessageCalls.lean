import IocpRuntime.Proofs.ParserSegments

namespace IocpRuntime.Proofs.MessageCalls
open Buffer Http HttpRequestParser ParserSteps ParserSegments
open Relation

variable {options : HttpParserOptions}
  {request : HttpRequest}

def start (options : HttpParserOptions) : HttpRequestParser := { options := options }

theorem start_live : Live input (start options) :=
  ⟨Sound.reset (start options), nofun, Nat.zero_le _⟩

def Whole (options : HttpParserOptions) (w : BufferSequence) (request : HttpRequest) : Prop :=
  drive (start options) [w] = .complete request w.bytes.length

/-- No octet is counted that is not there. -/
theorem Completed.inside (h : Live u p) (hc : Completed u.bytes p request k) :
    k ≤ u.bytes.length := by
  cases hc with
  | head _ scans _ _ fin =>
    obtain ⟨-, hi⟩ := scanned_line h.sound.line h.inside scans
    rw [(finalized fin).scanOffset]
    exact hi
  | body _ fits => exact fits
  | ended => exact h.inside

structure Pending (options : HttpParserOptions) (w : BufferSequence) (p : HttpRequestParser) : Prop where
  live : Live w p
  tracks : ∃ q, ReflTransGen (Moves w) (start options) q ∧ (p = q ∨ Resumes w.bytes q p)

theorem pending_start (options : HttpParserOptions) (w : BufferSequence) :
    Pending options w (start options) :=
  ⟨start_live, _, .refl, Or.inl rfl⟩

theorem Pending.options_eq (h : Pending options w p) : p.options = options := by
  obtain ⟨-, q, hr, hs | hres⟩ := h
  · rw [hs]
    exact comes_options start_live hr
  · have ho : q.options = options := comes_options start_live hr
    rw [hres.only]
    exact ho

theorem Resumes.trans (hpq : Resumes bytes p q) (hqr : Resumes bytes q r) : Resumes bytes p r where
  reads := hpq.reads
  only := by
    rw [hqr.only, hpq.only]
  same := hqr.same.trans hpq.same

/-- A pause within the part that is there keeps the place. -/
theorem Pending.paused (h : Pending options w q) (hq : Live u q)
    (hu : u.bytes <+: w.bytes) (hp : Paused u.bytes q r) (hr : Live u r) : Pending options w r := by
  have hl := live_extend hr hu
  rcases paused_resumes hq hu hp with hsa | hres
  · exact ⟨hl, hsa ▸ h.tracks⟩
  · obtain ⟨s, hs, hsa | hb⟩ := h.tracks
    · exact ⟨hl, s, hs, Or.inr (hsa ▸ hres)⟩
    · exact ⟨hl, s, hs, Or.inr (Resumes.trans hb hres)⟩

section Messages
variable (hw : Whole options w request)
include hw

theorem not_overLong (hr : ReflTransGen (Moves w) (start options) q) : ¬ OverLong w.bytes q := by
  intro hov
  have hl := comes_live start_live hr
  have hend := (drive_later start_live hr).symm.trans hw
  rw [drive_overLong hl hov] at hend
  injection hend with _ ho
  -- the message ends where the trailer starts, so there is no line to be too long
  have hs := hov.2
  unfold scanned at hs
  rw [ho, List.drop_length] at hs
  cases hs

section

variable (h : Pending options w p)
include h

theorem Pending.drive_eq : drive p [w] = .complete request w.bytes.length := by
  obtain ⟨hl, q, hr, hs | hres⟩ := h
  · subst hs
    exact (drive_later start_live hr).symm.trans hw
  · have hq := comes_live start_live hr
    have hend := (drive_later start_live hr).symm.trans hw
    rcases resumes_step hq hl hres with hst | ⟨error, -, hf⟩ | ho
    · rw [drive_step hl hq hst]
      exact hend
    · rw [drive_fail hq hf] at hend
      cases hend
    · exact absurd ho (not_overLong hw hr)

theorem Pending.moves (hr : ReflTransGen (Moves w) p q) : Pending options w q := by
  refine ⟨comes_live h.live hr, ?_⟩
  obtain ⟨s, hs, hsa | hres⟩ := h.tracks
  · exact ⟨q, hs.trans (hsa ▸ hr), Or.inl rfl⟩
  · rcases ReflTransGen.cases_head hr with rfl | ⟨next, hm, hre⟩
    · exact ⟨s, hs, Or.inr hres⟩
    · have hl := comes_live start_live hs
      unfold Moves at hm
      rcases resumes_step hl h.live hres with hst | ⟨error, hf, -⟩ | ho
      · rw [hst] at hm
        exact ⟨q, (hs.tail hm).trans hre, Or.inl rfl⟩
      · rw [hf] at hm
        exact absurd hm not_leads_fail
      · exact absurd ho (not_overLong hw hs)

theorem Pending.call_whole :
    ∃ q result, ReflTransGen (Moves w) p q ∧ q.step w = .done (start options) result ∧
      result.status = .complete ∧ result.request = request ∧
      result.consumedBytes = w.bytes.length := by
  have hend := h.drive_eq hw
  obtain ⟨q, hr, hs⟩ := call_ends h.live
  have hq := comes_live h.live hr
  rw [drive] at hend
  generalize call w p = out at hs hend
  cases hs with
  | thrown _ => cases hend
  | returned last _ =>
    obtain ⟨hst, hre, hc⟩ := settled_complete hend rfl
    obtain ⟨rfl, -⟩ := completed hq last hst
    rw [reset, comes_options h.live hr, h.options_eq] at last
    exact ⟨q, _, hr, last, hst, hre.symm, hc.symm⟩

/-- Once the message is there, the calls return its request, whatever follows it. -/
theorem Pending.call_complete (hu : w.bytes <+: u.bytes) :
    ∃ result, call u p = (start options, .returned result) ∧ result.status = .complete ∧
      result.request = request ∧ result.consumedBytes = w.bytes.length := by
  obtain ⟨q, result, hr, hste, hs, hre, hco⟩ := h.call_whole hw
  have hq := comes_live h.live hr
  have hst : Stopped w q (start options, .returned result) := by
    refine .returned hste ?_
    rw [hs]
    exact nofun
  have hse : settled (Outcome.returned result) =
      some (.complete result.request result.consumedBytes) := by
    simp only [settled, hs]
  refine ⟨result, ?_, hs, hre, hco⟩
  exact call_eq (live_extend h.live hu) (comes_extends h.live hu hr) (settled_extends hq hu hst hse)

theorem Pending.call_incomplete (hu : u.bytes <+: w.bytes)
    (hsh : u.bytes.length < w.bytes.length) (hi : p.scanOffset ≤ u.bytes.length) :
    ∃ q result, call u p = (q, .returned result) ∧ result.status = .incomplete ∧
      Pending options w q ∧ q.scanOffset ≤ u.bytes.length := by
  have hl : Live u p := ⟨h.live.sound, h.live.live, hi⟩
  obtain ⟨q, hr, hs⟩ := call_ends hl
  have hq := comes_live hl hr
  have hrw := comes_extends hl hu hr
  cases hset : settled (call u p).2 with
  | some ending =>
    -- the same would hold of the whole message, which ends beyond the part
    exfalso
    obtain ⟨q', result, hr', hste, hst, -, hco⟩ := h.call_whole hw
    have hsto := settled_extends hq hu hs hset
    have hq' : Stopped w q' (start options, .returned result) := by
      refine .returned hste ?_
      rw [hst]
      exact nofun
    cases ends_same moves_unique hrw hr' (fun _ => hsto.not_moves) (fun _ => hq'.not_moves)
    generalize call u p = out at hs hset hsto
    cases hs with
    | thrown last =>
      cases hsto with
      | thrown last' => cases last'.symm.trans hste
    | returned last _ =>
      cases hsto with
      | returned last' _ =>
        cases last'.symm.trans hste
        have hwi := Completed.inside hq (completed hq last hst).2
        omega
  | none =>
    obtain ⟨hpa, hn⟩ := stopped_paused hq hs hset
    have hp := (h.moves hw hrw).paused hq hu hpa hn
    generalize call u p = out at hs hset hn hp
    cases hs with
    | thrown _ => cases hset
    | returned _ _ => exact ⟨_, _, rfl, settled_none hset, hp, hn.inside⟩

end

end Messages

end IocpRuntime.Proofs.MessageCalls
