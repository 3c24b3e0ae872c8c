import K8sDev.Spec.Webhook
import K8sDev.Lts.Run

/-!
# Sessions of the webhook

Reloads, calls of `Mutate` and requests to `/mutate`, one after the other, and what is sent to the
client of a request. A call that panics ends there: `net/http` recovers, and the service goes on
with what the call has left.
-/

namespace K8sDev.Webhook

variable {ρ : Type}

def Mutated.panicked : Mutated → Bool
  | .panic => true
  | _ => false

def Reply.panicked : Reply → Bool
  | .panic => true
  | _ => false

inductive Visit
  | reload (listed : Except String (List Node))
  | mutate (req : AdmissionRequest)
  | post (body : Body)

structure Session where
  svc : Service
  /-- Some call has panicked. -/
  panicked : Bool := false

/-- Whether a visit panics, and what it leaves. -/
def Visit.run [DecidableEq ρ] (c : Codec ρ) (p : Service) : Visit → Bool × Service
  | .reload listed => (false, p.reload listed)
  | .mutate req => ((p.mutate c req).answer.panicked, (p.mutate c req).svc)
  | .post body => ((p.handle c body).answer.panicked, (p.handle c body).svc)

/-- Sessions, after the first reload of `NewService`. -/
def sessions [DecidableEq ρ] (c : Codec ρ) : Lts Session Visit where
  init s := ∃ items, s = { svc := Service.reload { nodeList := [] } (.ok items) }
  step s v t := t = ⟨(v.run c s.svc).2, s.panicked || (v.run c s.svc).1⟩

/-- What the client gets: no status when the handler panics. -/
inductive Sent
  | aborted
  | status (code : ℕ) (review : Option AdmissionReview)

/-- What `net/http` sends; `encodes` is whether `Encode` gets the review out. Its error is only
logged. -/
def Reply.sent (encodes : Bool) : Reply → Sent
  | .panic => .aborted
  | .error status _ => .status status none
  | .nothing => .status 200 none
  | .review resp => .status 200 (if encodes then some resp else none)

end K8sDev.Webhook
