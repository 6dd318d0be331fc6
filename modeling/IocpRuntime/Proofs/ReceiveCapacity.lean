import IocpRuntime.Proofs.Pipelining
import IocpRuntime.Server.Configuration

namespace IocpRuntime.Proofs.ReceiveCapacity
open Lib Lib.Lines Http HttpSession Server RingContents
open WireRequests SessionFeeds Pipelining

section Sizes

theorem length_lineThen : (lineThen text rest).length = text.length + 2 + rest.length := by
  simp only [lineThen, List.length_append, List.length_cons]
  omega

theorem length_fieldsThen :
    (fieldsThen fields rest).length = (fieldsThen fields []).length + rest.length := by
  induction fields with
  | nil => exact length_lineThen
  | cons field fields ih =>
    have hc : ∀ rest, (fieldsThen (field :: fields) rest).length =
        field.line.length + 2 + (fieldsThen fields rest).length :=
      fun rest => length_lineThen
    rw [hc, hc, ih]
    omega

/-- The line ends of headers are counted with them, that of the request line is not. -/
theorem length_encode (r : WireRequest) :
    r.encode.length = r.startLine.length + 2 + (r.headerBytes + r.content.encode.length) := by
  rw [WireRequest.encode, length_lineThen, length_fieldsThen]
  rfl

end Sizes

section Runs
def Overflowed (event : FeedEvent) : Prop :=
  ∃ result, (feed willing event.before event.input).outcome = .returned result ∧
    result.status = .bufferLimitExceeded

theorem feed_full (h : Settled (m :: rest) s)
    (hf : s.receiveBuffer.maximumCapacity.toNat < s.receiveBuffer.contents.length + bytes.length) :
    Overflowed ⟨s, bytes⟩ := by
  rw [s.receiveBuffer.length_contents] at hf
  have hr := h.1.running
  have hi := h.1.inTime
  refine ⟨⟨.bufferLimitExceeded, 0, s.receiveBuffer.readableBytes⟩, ?_, rfl⟩
  simp [HttpSession.feed, enter, hi, hr, append_full hf, postErrorResponse, willing]

/-- A part of a message stays in the buffer. -/
theorem final_short (h : Settled (m :: rest) s)
    (hs : s.receiveBuffer.contents ++ pieces.flatten <+: m.wire.bytes)
    (hsh : s.receiveBuffer.contents.length + pieces.flatten.length < m.wire.bytes.length)
    (hr : Fits s pieces.flatten) :
    Settled (m :: rest) (Runs.final fedSession s pieces) ∧
      Same s (Runs.final fedSession s pieces) ∧
      (Runs.final fedSession s pieces).receiveBuffer.contents =
        s.receiveBuffer.contents ++ pieces.flatten := by
  induction pieces generalizing s with
  | nil => exact ⟨h, ⟨rfl, rfl, rfl⟩, (List.append_nil _).symm⟩
  | cons bytes pieces ih =>
    rw [List.flatten_cons, ← List.append_assoc] at hs
    obtain ⟨hli, hm⟩ := hr
    rw [List.flatten_cons, List.length_append] at hsh hli hm
    have hnow : Fits s bytes := ⟨by omega, by omega⟩
    obtain ⟨hse, hsa, hc⟩ :=
      h.fed_short hnow ((List.prefix_append _ _).trans hs) (by omega)
    have hl := congrArg List.length hc
    rw [List.length_append] at hl
    rw [← hc] at hs
    have hca := congrArg UInt64.toNat hsa.capacity
    obtain ⟨hfn, hfi, hf⟩ :=
      ih hse hs (by omega) ⟨by omega, by omega⟩
    refine ⟨hfn, hsa.trans hfi, ?_⟩
    rw [Runs.final_cons, List.flatten_cons, ← List.append_assoc, ← hc]
    exact hf

end Runs

section Requests
variable {connectionId : Nat} {options : HttpSessionOptions} {s : HttpSession} {r : WireRequest}

def octetByOctet (bytes : Octets) : List Octets := bytes.map (fun octet => [octet])

theorem flatten_octetByOctet (bytes : Octets) : (octetByOctet bytes).flatten = bytes := by
  induction bytes with
  | nil => rfl
  | cons octet bytes ih =>
    rw [octetByOctet, List.map_cons, List.flatten_cons]
    exact congrArg (octet :: ·) ih

/-- A request that does not fit is refused at the octet that is one too many. -/
theorem overflows_long (hcr : HttpSession.create connectionId options = .ok s)
    (hwi : r.Within options.parser) (hm : r.encode.length ≤ 2 ^ 62)
    (hl : options.maximumBufferBytes.toNat < r.encode.length) :
    ∃ event ∈ Runs.history fedSession s (octetByOctet r.encode), Overflowed event := by
  obtain ⟨hse, he, -, -, -, hc⟩ := create_settled hcr [message r hwi]
  have hwr : (message r hwi).wire.bytes = r.encode := wire_bytes
  -- the octets that fit, the next one, and the others
  have hle : 0 < (r.encode.drop options.maximumBufferBytes.toNat).length := by
    rw [List.length_drop]
    omega
  obtain ⟨octet, more, hd⟩ := List.exists_cons_of_length_pos hle
  have hs := List.take_append_drop options.maximumBufferBytes.toNat r.encode
  have ht : (r.encode.take options.maximumBufferBytes.toNat).length =
      options.maximumBufferBytes.toNat := List.length_take_of_le (Nat.le_of_lt hl)
  rw [hd] at hs
  generalize r.encode.take options.maximumBufferBytes.toNat = taken at hs ht
  have hp : octetByOctet r.encode = octetByOctet taken ++ [octet] :: octetByOctet more := by
    rw [← hs, octetByOctet, List.map_append, List.map_cons]
    rfl
  obtain ⟨hf, hsa, hco⟩ := final_short hse (by rw [he, flatten_octetByOctet, hwr]; exact ⟨_, hs⟩)
    (by rw [he, flatten_octetByOctet, hwr, List.length_nil, Nat.zero_add, ht]; exact hl)
    ⟨by rw [he, flatten_octetByOctet, hc, List.length_nil, Nat.zero_add, ht],
      by rw [he, flatten_octetByOctet, List.length_nil, Nat.zero_add, ht]; omega⟩
  refine ⟨⟨Runs.final fedSession s (octetByOctet taken), [octet]⟩, ?_, feed_full hf ?_⟩
  · rw [hp, Runs.history_append]
    exact List.mem_append_right _ List.mem_cons_self
  · rw [hco, hsa.capacity, hc, he, flatten_octetByOctet, List.nil_append, ht]
    exact Nat.lt_succ_self _

/-- A request arrives octet by octet, and is dispatched. -/
structure Arrives (connectionId : Nat) (s : HttpSession) (r : WireRequest) : Prop where
  dispatched : (Runs.history fedSession s (octetByOctet r.encode)).flatMap dispatchedBy =
    [numbered connectionId 0 r.request]
  fits : ∀ event ∈ Runs.history fedSession s (octetByOctet r.encode), ¬ Overflowed event

theorem arrives_short (hc : HttpSession.create connectionId options = .ok s)
    (hwt : r.Within options.parser) (hm : r.encode.length ≤ 2 ^ 62)
    (hl : r.encode.length ≤ options.maximumBufferBytes.toNat) : Arrives connectionId s r := by
  have hf := flatten_octetByOctet r.encode
  have hwi : ∀ r' ∈ [r], r'.Within options.parser := fun r' hr' =>
    List.mem_singleton.mp hr' ▸ hwt
  have hsp : (octetByOctet r.encode).flatten = [r].flatMap WireRequest.encode :=
    hf.trans (List.flatMap_singleton ..).symm
  have hfi := pipeline_fits hc [r] hwi (octetByOctet r.encode) hsp
    (by rw [hf]; exact hl) (by rw [hf]; exact hm)
  obtain ⟨hd, hrt⟩ := pipeline_run hc [r] hwi _ hsp hfi
  refine ⟨hd.trans ?_, fun event he => ?_⟩
  · rw [List.map_singleton, served]
    split <;> rfl
  · rintro ⟨result, ho, hs⟩
    obtain ⟨result', ho', hre⟩ := hrt event he
    cases ho.symm.trans ho'
    rcases hre with hre | hre
    · cases hs.symm.trans hre
    · cases hs.symm.trans hre

/-- A valid request arrives if and only if it fits with the end of its request line, two octets that
the check leaves out. -/
theorem validated_request_arrives {configuration : HttpApplicationOptions}
    (hvalid : validate configuration = .ok ())
    (hcreate : HttpSession.create connectionId configuration.server.session = .ok s)
    {body : Octets} (hcontent : r.content = .plain body)
    (hwithin : r.Within configuration.server.session.parser) (hmemory : r.encode.length ≤ 2 ^ 62) :
    (Arrives connectionId s r ↔
      r.startLine.length + 2 + r.headerBytes + body.length ≤
        configuration.server.session.maximumBufferBytes.toNat) ∧
      r.startLine.length + r.headerBytes + body.length ≤
        configuration.server.session.maximumBufferBytes.toNat := by
  have hlength := length_encode r
  rw [hcontent, Content.encode] at hlength
  constructor
  · rw [Nat.add_assoc _ r.headerBytes, ← hlength]
    refine ⟨fun harrives => ?_, arrives_short hcreate hwithin hmemory⟩
    by_contra hlong
    obtain ⟨event, hevent, hoverflow⟩ :=
      overflows_long hcreate hwithin hmemory (Nat.lt_of_not_le hlong)
    exact harrives.fits event hevent hoverflow
  · have hroom := (validate_receiveLimits hvalid).room
    have hline := hwithin.line
    have hheader := hwithin.header
    have hbody := hwithin.body
    rw [hcontent, Content.body] at hbody
    omega

def farewellLimits : HttpParserOptions where
  maximumRequestLineBytes := 14
  maximumHeaderBytes := 28
  maximumHeaderCount := 2
  maximumBodyBytes := 0

def tight (maximumBufferBytes : UInt64) : HttpApplicationOptions where
  server := {
    session := {
      initialBufferBytes := 16
      maximumBufferBytes := maximumBufferBytes
      parser := farewellLimits } }

theorem farewell_within : farewell.Within farewellLimits :=
    ⟨by decide, by decide, by decide, by decide⟩

theorem validated_request_arrives_farewell : validate (tight 44) = .ok () ∧
    ∃ s, HttpSession.create 7 (tight 44).server.session = .ok s ∧ Arrives 7 s farewell := by
  have hvalid : validate (tight 44) = .ok () := by decide
  obtain ⟨s, hcreate⟩ : ∃ s, HttpSession.create 7 (tight 44).server.session = .ok s :=
    create_exists (by decide) (by decide) (by decide) (by decide) (by decide) (by decide) (by decide)
  have harrives := (validated_request_arrives hvalid hcreate (r := farewell) rfl farewell_within
    (by decide)).1.mpr (by decide)
  exact ⟨hvalid, s, hcreate, harrives⟩

/-- The configuration is accepted, and the request is refused before its last two octets. -/
theorem validated_request_refused : validate (tight 42) = .ok () ∧
    farewell.Within (tight 42).server.session.parser ∧
    ∃ s, HttpSession.create 7 (tight 42).server.session = .ok s ∧
      (∃ event ∈ Runs.history fedSession s (octetByOctet farewell.encode), Overflowed event) ∧
      (Runs.history fedSession s (octetByOctet farewell.encode)).flatMap dispatchedBy = [] := by
  have hrun : ((HttpSession.create 7 (tight 42).server.session).toOption.map (fun s =>
      (Runs.history fedSession s (octetByOctet farewell.encode)).flatMap dispatchedBy)) = some [] := by
    decide +kernel
  obtain ⟨s, hcreate, hnone⟩ := HttpSession.exists_created hrun
  refine ⟨by decide, farewell_within, s, hcreate, ?_, hnone⟩
  exact overflows_long hcreate farewell_within (by decide) (by decide)

end Requests

end IocpRuntime.Proofs.ReceiveCapacity
