import IocpRuntime.Http.Exchange
import IocpRuntime.Proofs.RingContents

namespace IocpRuntime.Proofs.FeedSteps
open Lib Buffer Http Execution HttpSession RingContents

section Conditions

def announces (s : HttpSession) : Bool :=
  match (s.parser.parse s.receiveBuffer.readableSequence).2 with
  | .returned result => decide (result.status = .headersComplete) && result.expectContinue
  | .thrown _ | .running => false

def malformed (s : HttpSession) : Bool :=
  match (s.parser.parse s.receiveBuffer.readableSequence).2 with
  | .returned result => decide (result.status = .error)
  | .thrown _ | .running => false

def overflows (s : HttpSession) (bytes : Octets) : Bool :=
  decide (s.receiveBuffer.maximumCapacity.toNat < s.receiveBuffer.readableBytes + bytes.length)

end Conditions

structure Reads (s t : HttpSession) (count : Nat) : Prop where
  running : t.stopped = s.stopped
  timer : t.parserTimedOut = s.parserTimedOut
  ids : t.nextRequestId = s.nextRequestId + count

structure Stops (s t : HttpSession) : Prop where
  stopped : t.stopped = true
  timer : t.parserTimedOut = s.parserTimedOut

/-- What a part of `Feed` can do; `asks` is the reason for an interim response and `fails`
that for an error response. -/
inductive Part (s : HttpSession) (asks fails : Prop) (submit : SubmitStatus) : Round → Prop
  | quiet {t : HttpSession} {now : Nat} (running : s.stopped = false) (reads : Reads s t 0) :
      Part s asks fails submit (.goesOn t now [])
  | interim {t : HttpSession} {now : Nat} (running : s.stopped = false) (reads : Reads s t 0)
      (asked : asks) :
      Part s asks fails submit (.goesOn t now [.send (makeTextResponse 100 [] (octets "text/plain"))])
  | request {t : HttpSession} {now : Nat} {request : HttpRequest} (running : s.stopped = false)
      (reads : Reads s t 1) (id : request.requestId = s.nextRequestId) (accepted : submit = .accepted) :
      Part s asks fails submit (.goesOn t now [.dispatch request false])
  | waits {t : HttpSession} {now left : Nat} (reads : Reads s t 0) :
      Part s asks fails submit (.returns t ⟨.ready, now, left⟩ [])
  | stopped {left : Nat} (already : s.stopped = true) :
      Part s asks fails submit (.returns s ⟨.stopped, 0, left⟩ [])
  | late {t : HttpSession} {left : Nat} (stops : Stops s t) (timedOut : s.parserTimedOut = true) :
      Part s asks fails submit (.returns t ⟨.stopped, 0, left⟩ [])
  | refused {t : HttpSession} {status : ProtocolFeedStatus} {now left : Nat} (stops : Stops s t)
      (refusal : submit ≠ .accepted) : Part s asks fails submit (.returns t ⟨status, now, left⟩ [])
  | last {t : HttpSession} {request : HttpRequest} {now left : Nat} (running : s.stopped = false)
      (stops : Stops s t) (id : request.requestId = s.nextRequestId) (accepted : submit = .accepted) :
      Part s asks fails submit (.returns t ⟨.ready, now, left⟩ [.dispatch request true])
  | error {t : HttpSession} {response : HttpResponse} {status : ProtocolFeedStatus} {now left : Nat}
      (running : s.stopped = false) (stops : Stops s t) (reason : fails)
      (accepted : submit = .accepted)
      (kind : status = .bufferLimitExceeded ∨ status = .protocolError) :
      Part s asks fails submit (.returns t ⟨status, now, left⟩ [.fail response])
  | throws {t : HttpSession} {e : Thrown} (reads : Reads s t 0) : Part s asks fails submit (.throws t e)

section Parts
theorem postErrorResponse_part (hr : s.stopped = false) (hs : Stops s t) (hf : fails)
    (hk : accepted = .bufferLimitExceeded ∨ accepted = .protocolError) :
    Part s asks fails submit (t.postErrorResponse code message now accepted submit) := by
  unfold postErrorResponse
  cases submit with
  | accepted => exact .error hr hs hf rfl hk
  | stopped => exact .refused hs nofun
  | saturated => exact .refused hs nofun

theorem enter_part : Part s False (overflows s bytes = true) submit (s.enter bytes submit) := by
  unfold enter
  split
  · rename_i ht
    exact .late ⟨rfl, rfl⟩ ht
  split
  · rename_i hs
    exact .stopped hs
  rename_i hr
  rw [Bool.not_eq_true] at hr
  split
  · exact .throws ⟨rfl, rfl, rfl⟩
  · rename_i ha
    exact postErrorResponse_part hr ⟨rfl, rfl⟩ (decide_eq_true (append_limitExceeded ha)) (Or.inl rfl)
  · exact .quiet hr ⟨rfl, rfl, rfl⟩

theorem dispatch_part (hr : s.stopped = false) (hreads : Reads s t 0) :
    Part s asks fails submit (t.dispatch request now submit) := by
  have hids : t.nextRequestId = s.nextRequestId := hreads.ids
  unfold dispatch
  dsimp only
  split
  · rename_i hre
    refine .refused ⟨rfl, hreads.timer⟩ ?_
    rintro rfl
    exact hre rfl
  · rename_i ha
    have hs : submit = .accepted := by
      cases submit
      · rfl
      · simp [toDispatchStatus] at ha
      · simp [toDispatchStatus] at ha
    split
    · rename_i hc
      rw [hc]
      exact .last hr ⟨rfl, hreads.timer⟩ hids hs
    · rename_i ho
      rw [Bool.not_eq_true] at ho
      rw [ho]
      exact .request hr ⟨hreads.running, hreads.timer, congrArg (· + 1) hids⟩ hids hs

theorem round_part (hr : s.stopped = false) (now : Nat) (submit : SubmitStatus) :
    Part s (announces s = true) (malformed s = true) submit (s.round now submit) := by
  unfold HttpSession.round
  split
  · rename_i p result hp
    have hreads : Reads s { s with parser := p } 0 := ⟨rfl, rfl, rfl⟩
    unfold onParsed
    split
    · rename_i hs
      split
      · rename_i he
        refine .interim hr hreads ?_
        simp [announces, hp, hs, he]
      · exact .quiet hr hreads
    · exact .waits hreads
    · rename_i hs
      exact postErrorResponse_part hr ⟨rfl, rfl⟩ (by simp [malformed, hp, hs]) (Or.inr rfl)
    · split
      · exact .throws hreads
      · exact dispatch_part hr ⟨rfl, rfl, rfl⟩
  · exact .throws ⟨rfl, rfl, rfl⟩
  · exact .quiet hr ⟨rfl, rfl, rfl⟩

theorem round_announces (h : announces s = true) :
    ∃ t, Reads s t 0 ∧ s.round now submit =
      .goesOn t now [.send (makeTextResponse 100 [] (octets "text/plain"))] := by
  unfold announces at h
  unfold HttpSession.round
  generalize s.parser.parse s.receiveBuffer.readableSequence = out at h
  obtain ⟨p, outcome⟩ := out
  cases outcome with
  | returned result =>
    simp only [Bool.and_eq_true, decide_eq_true_eq] at h
    refine ⟨{ s with parser := p }, ⟨rfl, rfl, rfl⟩, ?_⟩
    simp [onParsed, h.1, h.2]
  | thrown _ => cases h
  | running => cases h

end Parts

end IocpRuntime.Proofs.FeedSteps
