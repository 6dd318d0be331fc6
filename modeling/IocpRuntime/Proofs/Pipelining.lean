import IocpRuntime.Proofs.SessionFeeds
import IocpRuntime.Proofs.WireRequests

namespace IocpRuntime.Proofs.Pipelining
open Lib Buffer Http WireRequests SessionFeeds

section Wire
def wire (r : WireRequest) : BufferSequence where
  segments := [r.encode]
  two := Nat.le_succ 1
  addressable := by
    rw [List.flatten_singleton]
    exact r.addressable

theorem wire_bytes : (wire r).bytes = r.encode := List.flatten_singleton

def message (r : WireRequest) (hwithin : r.Within options) : Message options :=
  ⟨wire r, r.request, whole_request hwithin wire_bytes⟩

theorem exists_messages (requests : List WireRequest) (hwi : ∀ r ∈ requests, r.Within options) :
    ∃ messages : List (Message options), stream messages = requests.flatMap WireRequest.encode ∧
      messages.map (·.request) = requests.map WireRequest.request := by
  induction requests with
  | nil => exact ⟨[], rfl, rfl⟩
  | cons r requests ih =>
    obtain ⟨messages, hs, hre⟩ := ih (fun r' hr' => hwi r' (List.mem_cons_of_mem _ hr'))
    refine ⟨message r (hwi r List.mem_cons_self) :: messages, ?_, ?_⟩
    · rw [stream, List.flatMap_cons, List.flatMap_cons, ← hs]
      exact congrArg (· ++ _) wire_bytes
    · rw [List.map_cons, List.map_cons, hre]
      rfl

end Wire

section Pipeline
variable {connectionId : Nat}

theorem pipeline_run (hcr : HttpSession.create connectionId options = .ok s)
    (requests : List WireRequest) (hwi : ∀ r ∈ requests, r.Within options.parser)
    (segments : List Octets) (hsp : segments.flatten = requests.flatMap WireRequest.encode)
    (hf : ∀ event ∈ Runs.history fedSession s segments, event.before.stopped = false →
      Fits event.before event.input) :
    (Runs.history fedSession s segments).flatMap dispatchedBy =
        served connectionId options.maximumRequestsPerConnection.toNat 0
          (requests.map WireRequest.request) ∧
      ∀ event ∈ Runs.history fedSession s segments, Returns event := by
  obtain ⟨messages, hst, hr⟩ := exists_messages requests hwi
  obtain ⟨hs, he, hc, hm, hn, -⟩ := create_settled hcr messages
  have hall : s.receiveBuffer.contents ++ segments.flatten = stream messages := by
    rw [he, hst, List.nil_append, hsp]
  obtain ⟨hd, hre⟩ := stream_dispatched hs hall hf
  rw [owed_running hs.1.running, hc, hm, hn, hr] at hd
  exact ⟨hd, hre⟩

/-- In any segments that fit, what was sent is dispatched, up to the first request that closes. -/
theorem pipeline_dispatched (hcreate : HttpSession.create connectionId options = .ok s)
    (requests : List WireRequest) (hwithin : ∀ r ∈ requests, r.Within options.parser)
    (segments : List Octets) (hsplit : segments.flatten = requests.flatMap WireRequest.encode)
    (hfits : ∀ event ∈ Runs.history fedSession s segments, event.before.stopped = false →
      Fits event.before event.input) :
    (Runs.history fedSession s segments).flatMap dispatchedBy =
      served connectionId options.maximumRequestsPerConnection.toNat 0
        (requests.map WireRequest.request) :=
  (pipeline_run hcreate requests hwithin segments hsplit hfits).1

/-- Within a buffer that has room for the whole pipeline, every split fits. -/
theorem pipeline_fits (hcr : HttpSession.create connectionId options = .ok s)
    (requests : List WireRequest) (hwi : ∀ r ∈ requests, r.Within options.parser)
    (segments : List Octets) (hsp : segments.flatten = requests.flatMap WireRequest.encode)
    (hl : segments.flatten.length ≤ options.maximumBufferBytes.toNat)
    (hm : segments.flatten.length ≤ 2 ^ 62) :
    ∀ event ∈ Runs.history fedSession s segments, event.before.stopped = false →
      Fits event.before event.input := by
  obtain ⟨messages, hst, -⟩ := exists_messages requests hwi
  obtain ⟨hs, he, -, -, -, hc⟩ := create_settled hcr messages
  refine stream_fits hs ?_ ⟨?_, ?_⟩
  · rw [he, hst, List.nil_append, hsp]
  · rw [he, hc, List.length_nil, Nat.zero_add]
    exact hl
  · rw [he, List.length_nil, Nat.zero_add]
    exact hm

theorem create_exists (hp : 0 < options.initialBufferBytes.toNat)
    (hm : options.initialBufferBytes.toNat < 2 ^ 63)
    (hl : options.initialBufferBytes.toNat ≤ options.maximumBufferBytes.toNat)
    (hli : options.parser.maximumRequestLineBytes ≠ 0)
    (hh : ¬ options.parser.maximumHeaderBytes < 2)
    (hc : options.parser.maximumHeaderCount ≠ 0)
    (hr : options.maximumRequestsPerConnection ≠ 0) :
    ∃ s, HttpSession.create connectionId options = .ok s := by
  unfold HttpSession.create RingReceiveBuffer.create HttpRequestParser.create
  rw [dif_neg (Nat.not_le.mpr hm), dif_neg (Nat.ne_of_gt hp), dif_neg (Nat.not_lt.mpr hl), if_neg]
  · dsimp only [bind, Except.bind]
    rw [if_neg hr]
    exact ⟨_, rfl⟩
  · rintro (h | h | h)
    · exact hli h
    · exact hh h
    · exact hc h

def upload : WireRequest where
  method := octets "PUT"
  target := octets "/a?b"
  fields := [⟨octets "Host", octets " h", by decide, forall_octets (by decide), forall_octets (by decide)⟩,
    ⟨octets "Transfer-Encoding", octets "chunked", by decide, forall_octets (by decide),
      forall_octets (by decide)⟩]
  content := .chunked [⟨octets "3;x", octets "abc", by decide, forall_octets (by decide),
    ⟨by decide, by decide⟩, by decide⟩]
    ⟨octets "00", forall_octets (by decide), ⟨by decide, by decide⟩, by decide⟩
  method_filled := by decide
  method_token := forall_octets (by decide)
  origin := by decide
  target_text := forall_octets (by decide)
  host := by decide
  host_filled := by decide
  framed := ⟨by decide, by decide, by decide⟩
  addressable := by decide

def farewell : WireRequest where
  method := octets "GET"
  target := octets "/"
  fields := [⟨octets "Host", octets "h", by decide, forall_octets (by decide), forall_octets (by decide)⟩,
    ⟨octets "Connection", octets "close", by decide, forall_octets (by decide),
      forall_octets (by decide)⟩]
  content := .plain []
  method_filled := by decide
  method_token := forall_octets (by decide)
  origin := by decide
  target_text := forall_octets (by decide)
  host := by decide
  host_filled := by decide
  framed := framed_empty (by decide) (by decide)
  addressable := by decide

/-- The third request is not dispatched. -/
theorem pipeline_dispatched_farewell : ∃ s, HttpSession.create 7 {} = .ok s ∧
    (Runs.history fedSession s [upload.encode.take 40, upload.encode.drop 40 ++ farewell.encode,
      upload.encode]).flatMap dispatchedBy =
      [numbered 7 0 upload.request, numbered 7 1 farewell.request] := by
  obtain ⟨s, hcreate⟩ : ∃ s, HttpSession.create 7 {} = .ok s :=
    create_exists (by decide) (by decide) (by decide) (by decide) (by decide) (by decide) (by decide)
  have hupload : upload.Within {} := ⟨by decide, by decide, by decide, by decide⟩
  have hfarewell : farewell.Within {} := ⟨by decide, by decide, by decide, by decide⟩
  have hwithin : ∀ r ∈ [upload, farewell, upload], r.Within {} := by
    intro r hr
    simp only [List.mem_cons, List.not_mem_nil, or_false] at hr
    rcases hr with rfl | rfl | rfl
    · exact hupload
    · exact hfarewell
    · exact hupload
  have hsplit : [upload.encode.take 40, upload.encode.drop 40 ++ farewell.encode,
      upload.encode].flatten = [upload, farewell, upload].flatMap WireRequest.encode := by
    simp [List.flatten, ← List.append_assoc]
  refine ⟨s, hcreate, ?_⟩
  rw [pipeline_dispatched hcreate _ hwithin _ hsplit
    (pipeline_fits hcreate _ hwithin _ hsplit (by decide +kernel) (by decide +kernel))]
  rfl

end Pipeline

end IocpRuntime.Proofs.Pipelining
