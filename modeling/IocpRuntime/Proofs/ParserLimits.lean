import IocpRuntime.Proofs.ChunkedFraming

namespace IocpRuntime.Proofs.ParserLimits
open Lib Lib.Lines Buffer Http HttpRequestParser ParserSteps ParserSafety ParserSegments
open ChunkedFraming Relation

def fieldLines (fields : List Octets) : Octets := fields.flatMap (lineThen · [])

def headerSection (fields : List Octets) : Octets := fieldLines fields ++ lineThen [] []

structure Opens (wire line : Octets) (fields : List Octets) : Prop where
  starts : lineThen line (headerSection fields) <+: wire
  clean : Clean line
  filled : ∀ field ∈ fields, Clean field ∧ field ≠ []

def WithinLimits (options : HttpParserOptions) (wire : Octets) (request : HttpRequest) : Prop :=
  ∃ line fields, Opens wire line fields ∧
    line.length ≤ options.maximumRequestLineBytes.toNat ∧
    (headerSection fields).length ≤ options.maximumHeaderBytes.toNat ∧
    request.headers.length = fields.length ∧
    request.headers.length ≤ options.maximumHeaderCount.toNat ∧
    request.body.length ≤ options.maximumBodyBytes.toNat

structure Begun (wire : Octets) (p : HttpRequestParser) (line : Octets) (fields : List Octets) :
    Prop where
  taken : wire.take p.lineStart = lineThen line (fieldLines fields)
  clean : Clean line
  filled : ∀ field ∈ fields, Clean field ∧ field ≠ []
  short : line.length ≤ p.options.maximumRequestLineBytes.toNat
  bytes : p.headerBytes = (fieldLines fields).length
  count : p.request.headers.length = fields.length
  few : p.request.headers.length ≤ p.options.maximumHeaderCount.toNat

structure Within (wire : Octets) (p : HttpRequestParser) : Prop where
  start : p.state = .requestLine → p.lineStart = 0 ∧ p.headerBytes = 0 ∧ p.request.headers = []
  head : p.state = .headers → ∃ line fields, Begun wire p line fields
  limits : Beyond p → WithinLimits p.options wire p.request
  length : Beyond p → p.contentLength ≤ p.options.maximumBodyBytes.toNat

section Steps
variable {options : HttpParserOptions} {p q : HttpRequestParser} {request : HttpRequest}

theorem Within.beyond (hq : Beyond q) (h : WithinLimits q.options wire q.request)
    (hl : q.contentLength ≤ q.options.maximumBodyBytes.toNat) : Within wire q :=
  ⟨fun hc => absurd hc hq.1, fun hc => absurd hc hq.2, fun _ => h, fun _ => hl⟩

theorem Begun.within (h : Begun wire q line fields)
    (hs : q.state = .headers) : Within wire q :=
  ⟨(fun hc => by cases hs.symm.trans hc), fun _ => ⟨line, fields, h⟩, fun hb => absurd hs hb.2,
    fun hb => absurd hs hb.2⟩

theorem Begun.ends (h : Begun wire p line fields)
    (ht : wire.take n = wire.take p.lineStart ++ lineThen [] [])
    (hb : p.headerBytes + 2 ≤ p.options.maximumHeaderBytes.toNat)
    (hh : request.headers = p.request.headers) (hbo : request.body = []) :
    WithinLimits p.options wire request := by
  refine ⟨line, fields, ⟨?_, h.clean, h.filled⟩, h.short, ?_, ?_, ?_, ?_⟩
  · have hp := List.take_prefix n wire
    rw [ht, h.taken] at hp
    simpa [headerSection, lineThen] using hp
  · rw [headerSection, List.length_append, ← h.bytes]
    exact hb
  · rw [hh, h.count]
  · rw [hh]
    exact h.few
  · simp [hbo]

theorem field_few (hs : p.state = .headers) (hne : line ≠ [])
    (h : Leads (p.onLine w { status := .complete, value := line }) q) :
    p.request.headers.length < p.options.maximumHeaderCount.toNat := by
  by_contra hc
  unfold onLine at h
  rw [hs] at h
  unfold onHeaderLine takeHeaderLine at h
  dsimp only at h
  rw [if_neg hne, if_pos (Nat.le_of_not_lt hc)] at h
  split at h
  · exact not_leads_fail h
  · exact not_leads_fail h

/-- A round keeps the promises. -/
theorem Within.moves (h : Within w.bytes p) (hl : Live w p)
    (hf : AtLine p → p.lineStart = p.scanOffset) (hm : Moves w p q) : Within w.bytes q := by
  have hq := (moves_live hl hm).1
  by_cases hat : AtLine p
  · rcases moves_line hl hat hm with ⟨n, hsc, ht⟩ | ⟨ho, rfl⟩
    · obtain ⟨htake, hclean, hshort⟩ := take_line (hf hat) hsc
      have hle : Leads ((found p w.bytes (.line n)).1.onLine w
          { status := .complete, value := slice w.bytes p.lineStart (p.lineStart + n) }) q := by
        unfold Moves at hm
        rwa [step_line hat hl.sound.line hl.inside, hsc] at hm
      generalize slice w.bytes p.lineStart (p.lineStart + n) = text at *
      cases ht with
      | request state parsed =>
        obtain ⟨hz, hb, hh⟩ := h.start state
        have hnone := congrArg List.length ((parseRequestLine_keeps parsed).2.trans hh)
        unfold lineLimit at hshort
        rw [show p.state = _ from state] at hshort
        rw [hz, List.take_zero, List.nil_append, ← hz] at htake
        refine (?_ : Begun w.bytes _ text []).within rfl
        exact ⟨htake, hclean, (fun _ hc => by cases hc), hshort, hb, hnone,
          hnone.le.trans (Nat.zero_le _)⟩
      | field state filled parsed =>
        obtain ⟨line, fields, hbe⟩ := h.head state
        have hc := (parseHeaderLine_keeps parsed).2
        refine (?_ : Begun w.bytes _ line (fields ++ [text])).within state
        refine ⟨?_, hbe.clean, ?_, hbe.short, ?_, ?_, ?_⟩
        · refine htake.trans ?_
          rw [hbe.taken]
          simp [fieldLines, lineThen]
        · intro field hm
          rcases List.mem_append.mp hm with hm | hm
          · exact hbe.filled field hm
          · cases List.mem_singleton.mp hm
            exact ⟨hclean, filled⟩
        · have hb := hbe.bytes
          simp [fieldLines, lineThen, found] at hb ⊢
          omega
        · simp [hc, found, hbe.count]
        · rw [hc]
          exact field_few state filled hle
      | head state empty fin =>
        obtain ⟨line, fields, hbe⟩ := h.head state
        have hfin := finalized fin
        have hb := hq.sound.headerBytes
        have hsh := (shape_headers (p := p) state).mp hl.sound.shape
        dsimp only at hb
        rw [hfin.headerBytes, hfin.options, empty] at hb
        refine .beyond ?_ ?_ (hfin.limited.trans_eq (by rw [hfin.options]))
        · exact beyond_of _ rfl (by dsimp only; split <;> decide)
        · rw [hfin.options]
          exact hbe.ends (empty ▸ htake) hb hfin.headers (hfin.body.trans hsh.1)
      | size state =>
        have hp := beyond_of (p := p) _ state (by decide)
        exact .beyond (beyond_of _ rfl (by dsimp only; split <;> decide)) (h.limits hp) (h.length hp)
      | trailer state =>
        have hp := beyond_of (p := p) _ state (by decide)
        exact .beyond hp (h.limits hp) (h.length hp)
      | last state =>
        have hp := beyond_of (p := p) _ state (by decide)
        exact .beyond (beyond_of .chunkEnd rfl (by decide)) (h.limits hp) (h.length hp)
    · have hp := beyond_of _ ho.1 (by decide)
      exact .beyond (beyond_of .chunkEnd rfl (by decide)) (h.limits hp) (h.length hp)
  · obtain ⟨hs, -, hmax, rfl⟩ := moves_data hl hat hm
    have hp := beyond_of _ hs (by decide)
    obtain ⟨line, fields, ho, hli, hhe, hc, hfe, -⟩ := h.limits hp
    refine .beyond (beyond_of .chunkHead rfl (by decide)) ?_ (h.length hp)
    refine ⟨line, fields, ho, hli, hhe, hc, hfe, ?_⟩
    simp only [chunkTaken, List.length_append, slice, List.length_take]
    omega

/-- A new parser has promised nothing yet, and every round keeps the promises. -/
theorem comes_within (hc : HttpRequestParser.create options = .ok p)
    (hr : ReflTransGen (Moves w) p q) : Within w.bytes q := by
  induction hr with
  | refl =>
    obtain ⟨rfl, -⟩ := create_ok hc
    exact ⟨fun _ => ⟨rfl, rfl, rfl⟩, nofun, fun hb => absurd rfl hb.1,
      fun hb => absurd rfl hb.1⟩
  | tail hr hm ih =>
    exact ih.moves (comes_live (create_live hc w) hr) (create_flush hc hr) hm

/-- What a round completes keeps the limits. -/
theorem Within.completed (h : Within w.bytes p) (hl : Live w p)
    (hf : AtLine p → p.lineStart = p.scanOffset) (hc : Completed w.bytes p request k) :
    WithinLimits p.options w.bytes request := by
  cases hc with
  | head state scans empty fits fin =>
    obtain ⟨line, fields, hbe⟩ := h.head state
    obtain ⟨htake, -, -⟩ := take_line (hf (Or.inr (Or.inl state))) scans
    have hsh := (shape_headers state).mp hl.sound.shape
    have hfin := finalized fin
    exact hbe.ends (empty ▸ htake) (by omega) hfin.headers (hfin.body.trans hsh.1)
  | body state fits =>
    have hp := beyond_of _ state (by decide)
    obtain ⟨line, fields, ho, hli, hhe, hc, hfe, -⟩ := h.limits hp
    refine ⟨line, fields, ho, hli, hhe, hc, hfe, ?_⟩
    rw [slice_length _ _ _ fits, Nat.add_sub_cancel_left]
    exact h.length hp
  | ended state => exact h.limits (beyond_of _ state (by decide))

end Steps

/-- A completed request keeps all limits, however its octets arrive; the header count never wraps.
-/
theorem completed_within_limits {options : HttpParserOptions} {p : HttpRequestParser}
    (hc : HttpRequestParser.create options = .ok p) :
    (∀ (w : BufferSequence) (inputs : List BufferSequence) (request : HttpRequest) (k : Nat),
      Grows w.bytes inputs → drive p inputs = .complete request k →
        WithinLimits options w.bytes request) ∧
    ∀ (q r : HttpRequestParser) (input : BufferSequence), Reachable q → InLoop input q r →
      r.headerBytes ≤ r.options.maximumHeaderBytes.toNat := by
  constructor
  · intro w inputs request k hg hd
    have hl := create_live hc w
    have hoptions : p.options = options := by rw [(create_ok hc).1]
    rcases drive_tracks hg (fun u _ _ => create_live hc u) (create_text hc) with
      hs | ⟨q, _, hr, ho, hend, -⟩
    · obtain ⟨q, hr, hstop⟩ := call_ends hl
      rw [hs, drive] at hd
      generalize call w p = out at hstop hd
      cases hstop with
      | thrown _ => cases hd
      | returned last _ =>
        obtain ⟨hst, hre, -⟩ := settled_complete hd rfl
        have hq := comes_live hl hr
        have hcom := (completed hq last hst).2
        rw [hre, ← hoptions, ← comes_options hl hr]
        exact (comes_within hc hr).completed hq (create_flush hc hr) hcom
    · rw [hd] at hend
      cases hend
      rw [← hoptions, ← comes_options hl hr]
      exact (comes_within hc hr).limits (beyond_of _ ho.1 (by decide))
  · rintro q r input hq ⟨hlive, hi, hr⟩
    exact ((entered (reachable_sound hq) hlive hi).reaches hr).sound.headerBytes

def tight : HttpParserOptions where
  maximumRequestLineBytes := 15
  maximumHeaderBytes := 39
  maximumHeaderCount := 2
  maximumBodyBytes := 1

theorem completed_within_tight :
    drive { options := tight } [looseChunk] =
        .complete (posted (octets "A")) looseChunk.bytes.length ∧
      WithinLimits tight looseChunk.bytes (posted (octets "A")) := by
  have hd : drive { options := tight } [looseChunk] =
      .complete (posted (octets "A")) looseChunk.bytes.length := by decide +kernel
  exact ⟨hd, (completed_within_limits (by decide)).1 looseChunk _ _ _ (.whole rfl) hd⟩

end IocpRuntime.Proofs.ParserLimits
