import NanoDB.Lib.Execution
import NanoDB.Shard.Service

/-!
# Concurrent handlers and the epoch

{lit}`Insert` and {lit}`Delete` run on any number of threads.  {lit}`current_epoch_` is
atomic, but {lit}`check_and_advance_epoch` loads it, compares, and stores the epoch of the
request in a second access.  Between the two another handler can store a higher epoch.

A handler is the sequence of its accesses to the shard: the load, the store where the
epoch of the request is the higher one, and the write.

Main results:

- Theorem {lit}`handle_of_sequential`: a handler that runs alone is the handler of
  {lit}`NanoDB.Shard.Service`.
- Theorem {lit}`epoch_never_goes_back`: as long as no handler stores an epoch while
  another one is about to store a lower one, the epoch never goes back and fences off
  every later request that is behind.
- Theorem {lit}`store_can_go_back`: a store that does not meet this can be followed by
  one that lowers the epoch.
-/

namespace NanoDB.Shard

open NanoDB.Index (vectorDim)
open Lib (Exec guardedRun)

/-! ## Handlers -/

inductive WriteRequest
  | insert (request : InsertRequest)
  | delete (request : DeleteRequest)
deriving DecidableEq, Repr

def WriteRequest.epoch : WriteRequest → Nat
  | .insert request => request.epoch
  | .delete request => request.epoch

namespace ShardServer

/-- The handler of a request as one step. -/
def handle (s : ShardServer) : WriteRequest → WriteResponse × ShardServer
  | .insert request => s.insert request
  | .delete request => s.delete request

/-- The handler behind {lit}`check_and_advance_epoch`: what it does to a request that is at
the epoch of the shard. -/
def write (s : ShardServer) : WriteRequest → WriteResponse × ShardServer
  | .insert request => s.insert { request with epoch := s.currentEpoch }
  | .delete request => s.delete { request with epoch := s.currentEpoch }

end ShardServer

/-- What a handler does before it looks at the epoch. -/
def WriteRequest.refused : WriteRequest → Option String
  | .insert request =>
      if request.vector.length = vectorDim then none
      else some ("vector dimension mismatch, expected " ++ toString vectorDim)
  | .delete _ => none

/-- How far a handler has come. -/
inductive Phase
  | idle
  | started (request : WriteRequest)
  /-- It has loaded a lower epoch and has to store its own. -/
  | storing (request : WriteRequest)
  | writing (request : WriteRequest)
  /-- {lit}`accepted` is what {lit}`check_and_advance_epoch` has returned. -/
  | finished (request : WriteRequest) (accepted : Bool) (response : WriteResponse)
deriving DecidableEq

/-- The shard and its handlers. -/
structure EpochRace (ι : Type) where
  server : ShardServer
  handlers : ι → Phase

/-- One access of one handler. -/
inductive HandlerAction (ι : Type)
  | start (h : ι) (request : WriteRequest)
  | load (h : ι)
  | store (h : ι)
  | write (h : ι)
deriving DecidableEq, Repr

namespace EpochRace

variable {ι : Type} [DecidableEq ι]

def setPhase (s : EpochRace ι) (h : ι) (phase : Phase) : EpochRace ι :=
  { s with handlers := Function.update s.handlers h phase }

@[simp]
theorem setPhase_self (s : EpochRace ι) (h : ι) (phase : Phase) :
    (s.setPhase h phase).handlers h = phase :=
  Function.update_self ..

theorem setPhase_of_ne {s : EpochRace ι} {i j : ι} {phase : Phase} (hj : j ≠ i) :
    (s.setPhase i phase).handlers j = s.handlers j :=
  Function.update_of_ne hj ..

@[simp]
theorem setPhase_server (s : EpochRace ι) (h : ι) (phase : Phase) :
    (s.setPhase h phase).server = s.server :=
  rfl

/-- The phase after the load, which is compared at once. -/
def afterLoad (current : Nat) (request : WriteRequest) : Phase :=
  match checkAndAdvanceEpoch current request.epoch with
  | .error message => .finished request false ⟨false, message⟩
  | .ok _ => if request.epoch > current then .storing request else .writing request

def step (s : EpochRace ι) : HandlerAction ι → Option (EpochRace ι)
  | .start h request =>
      match s.handlers h with
      | .idle =>
          match request.refused with
          | some message => some (s.setPhase h (.finished request false ⟨false, message⟩))
          | none => some (s.setPhase h (.started request))
      | _ => none
  | .load h =>
      match s.handlers h with
      | .started request => some (s.setPhase h (afterLoad s.server.currentEpoch request))
      | _ => none
  | .store h =>
      match s.handlers h with
      | .storing request =>
          some { setPhase s h (.writing request) with
            server := { s.server with currentEpoch := request.epoch } }
      | _ => none
  | .write h =>
      match s.handlers h with
      | .writing request =>
          some { setPhase s h (.finished request true (s.server.write request).1) with
            server := (s.server.write request).2 }
      | _ => none

/-- What a step can do. -/
theorem step_cases {s s' : EpochRace ι} {act : HandlerAction ι} (h : step s act = some s') :
    (∃ i request phase, act = .start i request ∧ s.handlers i = .idle ∧
      s' = s.setPhase i phase ∧ (phase = .started request ∨
        ∃ response, phase = .finished request false response)) ∨
    (∃ i request, act = .load i ∧ s.handlers i = .started request ∧
      s' = s.setPhase i (afterLoad s.server.currentEpoch request)) ∨
    (∃ i request, act = .store i ∧ s.handlers i = .storing request ∧
      s' = { setPhase s i (.writing request) with
        server := { s.server with currentEpoch := request.epoch } }) ∨
    (∃ i request, act = .write i ∧ s.handlers i = .writing request ∧
      s' = { setPhase s i (.finished request true (s.server.write request).1) with
        server := (s.server.write request).2 }) := by
  cases act with
  | start i request =>
      simp only [step] at h
      split at h
      · next hidle =>
          split at h
          · exact .inl ⟨i, request, _, rfl, hidle, (Option.some_inj.mp h).symm, .inr ⟨_, rfl⟩⟩
          · exact .inl ⟨i, request, _, rfl, hidle, (Option.some_inj.mp h).symm, .inl rfl⟩
      · contradiction
  | load i =>
      simp only [step] at h
      split at h
      · next request hphase =>
          exact .inr (.inl ⟨i, request, rfl, hphase, (Option.some_inj.mp h).symm⟩)
      · contradiction
  | store i =>
      simp only [step] at h
      split at h
      · next request hphase =>
          exact .inr (.inr (.inl ⟨i, request, rfl, hphase, (Option.some_inj.mp h).symm⟩))
      · contradiction
  | write i =>
      simp only [step] at h
      split at h
      · next request hphase =>
          exact .inr (.inr (.inr ⟨i, request, rfl, hphase, (Option.some_inj.mp h).symm⟩))
      · contradiction

/-! ## One handler alone -/

theorem step_load {s : EpochRace ι} {h : ι} {request : WriteRequest}
    (hphase : s.handlers h = .started request) :
    step s (.load h) = some (s.setPhase h (afterLoad s.server.currentEpoch request)) := by
  simp [step, hphase]

theorem step_store {s : EpochRace ι} {h : ι} {request : WriteRequest}
    (hphase : s.handlers h = .storing request) :
    step s (.store h) = some { setPhase s h (.writing request) with
      server := { s.server with currentEpoch := request.epoch } } := by
  simp [step, hphase]

theorem step_write {s : EpochRace ι} {h : ι} {request : WriteRequest}
    (hphase : s.handlers h = .writing request) :
    step s (.write h) = some { setPhase s h (.finished request true (s.server.write request).1) with
      server := (s.server.write request).2 } := by
  simp [step, hphase]

theorem checkAndAdvanceEpoch_self (current : Nat) :
    checkAndAdvanceEpoch current current = .ok current := by
  simp [checkAndAdvanceEpoch]

/-- The write does not touch the epoch. -/
theorem currentEpoch_write (server : ShardServer) (request : WriteRequest) :
    (server.write request).2.currentEpoch = server.currentEpoch := by
  cases request with
  | insert request =>
      rw [ShardServer.write, ShardServer.insert]
      split
      · rw [checkAndAdvanceEpoch_self]
      · rfl
  | delete request =>
      rw [ShardServer.write, ShardServer.delete, checkAndAdvanceEpoch_self]
      dsimp only
      split <;> rfl

/-- An accepted request is written at the epoch that the check has set. -/
theorem handle_of_accepted {server : ShardServer} {request : WriteRequest} {epoch : Nat}
    (hrefused : request.refused = none)
    (hcheck : checkAndAdvanceEpoch server.currentEpoch request.epoch = .ok epoch) :
    server.handle request = { server with currentEpoch := epoch }.write request := by
  cases request with
  | insert request =>
      rw [WriteRequest.epoch] at hcheck
      have hdim : request.vector.length = vectorDim := by
        by_contra hdim
        simp [WriteRequest.refused, hdim] at hrefused
      rw [ShardServer.handle, ShardServer.write, ShardServer.insert, ShardServer.insert,
        dif_pos hdim, dif_pos hdim, hcheck]
      simp only [checkAndAdvanceEpoch_self]
  | delete request =>
      rw [WriteRequest.epoch] at hcheck
      rw [ShardServer.handle, ShardServer.write, ShardServer.delete, ShardServer.delete, hcheck]
      simp only [checkAndAdvanceEpoch_self]

/-- A request that is refused before the check or by it leaves the shard alone. -/
theorem handle_of_refused {server : ShardServer} {request : WriteRequest} {message : String}
    (hrefused : request.refused = some message ∨ request.refused = none ∧
      checkAndAdvanceEpoch server.currentEpoch request.epoch = .error message) :
    server.handle request = (⟨false, message⟩, server) := by
  cases request with
  | insert request =>
      rw [ShardServer.handle, ShardServer.insert]
      simp only [WriteRequest.refused, WriteRequest.epoch] at hrefused
      by_cases hdim : request.vector.length = vectorDim
      · simp only [hdim, if_true, reduceCtorEq, true_and, false_or] at hrefused
        rw [dif_pos hdim, hrefused]
      · simp only [hdim, if_false, Option.some_inj, reduceCtorEq, false_and, or_false] at hrefused
        rw [dif_neg hdim, hrefused]
  | delete request =>
      simp only [WriteRequest.refused, WriteRequest.epoch, reduceCtorEq, true_and,
        false_or] at hrefused
      rw [ShardServer.handle, ShardServer.delete, hrefused]

/-- A handler that runs alone is one step of the shard. -/
theorem handle_of_sequential (s : EpochRace ι) (h : ι) (request : WriteRequest)
    (hidle : s.handlers h = .idle) :
    ∃ acts s' accepted, Exec step (fun _ _ => True) s acts s' ∧
      s'.server = (s.server.handle request).2 ∧
      s'.handlers h = .finished request accepted (s.server.handle request).1 := by
  cases hrefused : request.refused with
  | some message =>
      have hstart : step s (.start h request) =
          some (s.setPhase h (.finished request false ⟨false, message⟩)) := by
        simp [step, hidle, hrefused]
      rw [handle_of_refused (.inl hrefused)]
      exact ⟨_, _, false, .cons trivial hstart (.nil _), rfl, setPhase_self ..⟩
  | none =>
      have hstart : step s (.start h request) = some (s.setPhase h (.started request)) := by
        simp [step, hidle, hrefused]
      have hload := step_load (setPhase_self s h (.started request))
      cases hcheck : checkAndAdvanceEpoch s.server.currentEpoch request.epoch with
      | error message =>
          have hphase : afterLoad s.server.currentEpoch request =
              .finished request false ⟨false, message⟩ := by
            rw [afterLoad, hcheck]
          rw [handle_of_refused (.inr ⟨hrefused, hcheck⟩)]
          refine ⟨_, _, false, .cons trivial hstart
            (.cons trivial hload (.nil _)), rfl, ?_⟩
          rw [setPhase_self, setPhase_server, hphase]
      | ok epoch =>
          have hepoch : epoch =
              if request.epoch > s.server.currentEpoch then request.epoch
              else s.server.currentEpoch := by
            rw [checkAndAdvanceEpoch] at hcheck
            split at hcheck
            · contradiction
            · exact (Except.ok.inj hcheck).symm
          rw [handle_of_accepted hrefused hcheck]
          by_cases hlower : request.epoch > s.server.currentEpoch
          · have hphase : afterLoad s.server.currentEpoch request = .storing request := by
              rw [afterLoad, hcheck]
              exact if_pos hlower
            rw [if_pos hlower] at hepoch
            subst hepoch
            refine ⟨_, _, true, .cons trivial hstart (.cons trivial hload
              (.cons trivial (step_store (by rw [setPhase_self]; exact hphase))
                (.cons trivial (step_write (setPhase_self ..)) (.nil _)))), rfl, ?_⟩
            exact setPhase_self ..
          · have hphase : afterLoad s.server.currentEpoch request = .writing request := by
              rw [afterLoad, hcheck]
              exact if_neg hlower
            rw [if_neg hlower] at hepoch
            subst hepoch
            refine ⟨_, _, true, .cons trivial hstart (.cons trivial hload
              (.cons trivial (step_write (by rw [setPhase_self]; exact hphase)) (.nil _))), rfl, ?_⟩
            exact setPhase_self ..

/-! ## The fence -/

end EpochRace

/-- The request that a handler has passed the check with. -/
def Phase.accepted : Phase → Option WriteRequest
  | .storing request => some request
  | .writing request => some request
  | .finished request true _ => some request
  | _ => none

/-- The epoch that a handler is about to store. -/
def Phase.pendingEpoch : Phase → Option Nat
  | .storing request => some request.epoch
  | _ => none

namespace EpochRace

variable {ι : Type} [DecidableEq ι] {s s' : EpochRace ι} {act : HandlerAction ι}

/-- No handler stores an epoch while another one is about to store a lower one. -/
def NoLowerPending (s : EpochRace ι) : HandlerAction ι → Prop
  | .store h => ∀ g, ∀ epoch ∈ (s.handlers h).pendingEpoch,
      ∀ epoch' ∈ (s.handlers g).pendingEpoch, epoch ≤ epoch'
  | _ => True

/-- Every epoch that is about to be stored is at least the current one, and every other
accepted request is at most at the current one. -/
structure Fenced (s : EpochRace ι) : Prop where
  pending : ∀ i, ∀ epoch ∈ (s.handlers i).pendingEpoch, s.server.currentEpoch ≤ epoch
  passed : ∀ i request, (s.handlers i).accepted = some request →
    (s.handlers i).pendingEpoch = none → request.epoch ≤ s.server.currentEpoch

theorem afterLoad_spec (current : Nat) (request : WriteRequest) :
    (∀ epoch ∈ (afterLoad current request).pendingEpoch, current ≤ epoch) ∧
      ∀ r, (afterLoad current request).accepted = some r →
        current ≤ r.epoch ∧
          ((afterLoad current request).pendingEpoch = none → r.epoch ≤ current) := by
  rw [afterLoad, checkAndAdvanceEpoch]
  by_cases hstale : request.epoch < current
  · simp [hstale, Phase.pendingEpoch, Phase.accepted]
  · by_cases hlower : request.epoch > current
    · simp [hstale, hlower, Phase.pendingEpoch, Phase.accepted]
      omega
    · simp [hstale, hlower, Phase.pendingEpoch, Phase.accepted]
      omega

/-- A phase in which nothing is accepted keeps the fence. -/
theorem Fenced.setPhase (h : Fenced s) (i : ι) {phase : Phase} {server : ShardServer}
    (hserver : server.currentEpoch = s.server.currentEpoch)
    (hpending : ∀ epoch ∈ phase.pendingEpoch, s.server.currentEpoch ≤ epoch)
    (hpassed : ∀ request, phase.accepted = some request → phase.pendingEpoch = none →
      request.epoch ≤ s.server.currentEpoch) :
    Fenced { s.setPhase i phase with server := server } := by
  constructor
  · intro j epoch hepoch
    rw [hserver]
    by_cases hj : j = i
    · subst hj
      rw [setPhase_self] at hepoch
      exact hpending epoch hepoch
    · rw [setPhase_of_ne hj] at hepoch
      exact h.pending j epoch hepoch
  · intro j request haccepted hnone
    rw [hserver]
    by_cases hj : j = i
    · subst hj
      rw [setPhase_self] at haccepted hnone
      exact hpassed request haccepted hnone
    · rw [setPhase_of_ne hj] at haccepted hnone
      exact h.passed j request haccepted hnone

theorem Fenced.step (h : Fenced s) (hok : NoLowerPending s act)
    (hstep : EpochRace.step s act = some s') : Fenced s' := by
  rcases step_cases hstep with ⟨i, request, phase, rfl, -, rfl, hphase⟩ |
    ⟨i, request, rfl, -, rfl⟩ | ⟨i, request, rfl, hi, rfl⟩ | ⟨i, request, rfl, hi, rfl⟩
  · rcases hphase with rfl | ⟨response, rfl⟩
    · exact h.setPhase i rfl (by simp [Phase.pendingEpoch]) (by simp [Phase.accepted])
    · exact h.setPhase i rfl (by simp [Phase.pendingEpoch]) (by simp [Phase.accepted])
  · have hspec := afterLoad_spec s.server.currentEpoch request
    exact h.setPhase i rfl hspec.1 fun r hr => (hspec.2 r hr).2
  · have hmine : request.epoch ∈ (s.handlers i).pendingEpoch := by
      rw [hi]
      rfl
    constructor
    · intro j epoch hepoch
      by_cases hj : j = i
      · subst hj
        rw [setPhase_self] at hepoch
        contradiction
      · rw [setPhase_of_ne hj] at hepoch
        exact hok j request.epoch hmine epoch hepoch
    · intro j r haccepted hnone
      by_cases hj : j = i
      · subst hj
        rw [setPhase_self] at haccepted
        rw [← Option.some_inj.mp haccepted]
      · rw [setPhase_of_ne hj] at haccepted hnone
        exact (h.passed j r haccepted hnone).trans (h.pending i _ hmine)
  · refine h.setPhase i (currentEpoch_write _ _) (by simp [Phase.pendingEpoch]) ?_
    intro r hr _
    apply h.passed i r
    · rw [hi]
      exact hr
    · rw [hi]
      rfl

/-- Between two states: the epoch did not go back, and a request accepted in between was
not behind the epoch at the start. -/
def FencedSince (s s' : EpochRace ι) : Prop :=
  s.server.currentEpoch ≤ s'.server.currentEpoch ∧
    ∀ i request, (s'.handlers i).accepted = some request →
      (s.handlers i).accepted = some request ∨ s.server.currentEpoch ≤ request.epoch

omit [DecidableEq ι] in
theorem FencedSince.trans {s s' s'' : EpochRace ι} (h : FencedSince s s')
    (h' : FencedSince s' s'') : FencedSince s s'' := by
  refine ⟨h.1.trans h'.1, ?_⟩
  intro i request haccepted
  rcases h'.2 i request haccepted with hbefore | hle
  · exact h.2 i request hbefore
  · exact .inr (h.1.trans hle)

theorem FencedSince.setPhase {i : ι} {phase : Phase} {server : ShardServer}
    (hserver : s.server.currentEpoch ≤ server.currentEpoch)
    (hphase : ∀ request, phase.accepted = some request →
      (s.handlers i).accepted = some request ∨ s.server.currentEpoch ≤ request.epoch) :
    FencedSince s { s.setPhase i phase with server := server } := by
  refine ⟨hserver, ?_⟩
  intro j request haccepted
  by_cases hj : j = i
  · subst hj
    rw [setPhase_self] at haccepted
    exact hphase request haccepted
  · rw [setPhase_of_ne hj] at haccepted
    exact .inl haccepted

theorem FencedSince.step (h : Fenced s) (hstep : EpochRace.step s act = some s') :
    FencedSince s s' := by
  rcases step_cases hstep with ⟨i, request, phase, rfl, -, rfl, hphase⟩ |
    ⟨i, request, rfl, -, rfl⟩ | ⟨i, request, rfl, hi, rfl⟩ | ⟨i, request, rfl, hi, rfl⟩
  · refine FencedSince.setPhase le_rfl ?_
    rcases hphase with rfl | ⟨response, rfl⟩
    · simp [Phase.accepted]
    · simp [Phase.accepted]
  · exact FencedSince.setPhase le_rfl fun r hr => .inr ((afterLoad_spec _ _).2 r hr).1
  · have hmine : request.epoch ∈ (s.handlers i).pendingEpoch := by
      rw [hi]
      rfl
    refine FencedSince.setPhase (h.pending i _ hmine) fun r hr => .inl ?_
    rw [hi]
    exact hr
  · refine FencedSince.setPhase (currentEpoch_write _ _).ge fun r hr => .inl ?_
    rw [hi]
    exact hr

/-- What the epoch is for, between two states of a run: it does not go back, and once a
handler has finished with its request accepted, no request behind it is accepted by a
handler that starts later. -/
def HighWaterMark (s s' : EpochRace ι) : Prop :=
  s.server.currentEpoch ≤ s'.server.currentEpoch ∧
    ∀ i j request request' response response',
      s.handlers i = .finished request true response → s.handlers j = .idle →
      s'.handlers j = .finished request' true response' → request.epoch ≤ request'.epoch

/-- In every run in which no handler stores an epoch while another one is about to store
a lower one, the epoch is a high-water mark. -/
theorem epoch_never_goes_back {s₀ s s' : EpochRace ι} {acts acts' : List (HandlerAction ι)}
    (hinit : ∀ i, s₀.handlers i = .idle) (hrun : Exec EpochRace.step NoLowerPending s₀ acts s)
    (hrun' : Exec EpochRace.step NoLowerPending s acts' s') : HighWaterMark s s' := by
  have hfenced₀ : Fenced s₀ := by
    constructor
    · intro i epoch hepoch
      rw [hinit i] at hepoch
      contradiction
    · intro i request haccepted
      rw [hinit i] at haccepted
      contradiction
  have hfenced : Fenced s :=
    hrun.invariant Fenced (fun _ _ _ hinv hok hstep => hinv.step hok hstep) hfenced₀
  have hsince : FencedSince s s' :=
    hrun'.relation Fenced FencedSince (fun _ => ⟨le_rfl, fun _ _ h => .inl h⟩)
      (fun _ _ _ h h' => h.trans h') (fun _ _ _ hinv hok hstep => hinv.step hok hstep)
      (fun _ _ _ hinv _ hstep => FencedSince.step hinv hstep) hfenced
  refine ⟨hsince.1, ?_⟩
  intro i j request request' response response' hi hj hj'
  have hle : request.epoch ≤ s.server.currentEpoch := by
    apply hfenced.passed i request
    · rw [hi]
      rfl
    · rw [hi]
      rfl
  have haccepted : (s'.handlers j).accepted = some request' := by
    rw [hj']
    rfl
  rcases hsince.2 j request' haccepted with hbefore | hge
  · rw [hj] at hbefore
    contradiction
  · exact hle.trans hge

/-- A store that leaves a lower one pending can be followed by it, and then the epoch goes
back. -/
theorem store_can_go_back {i : ι} {request : WriteRequest} (hi : s.handlers i = .storing request)
    (hbad : ¬ NoLowerPending s (.store i)) :
    ∃ j t t', EpochRace.step s (.store i) = some t ∧ EpochRace.step t (.store j) = some t' ∧
      t'.server.currentEpoch < t.server.currentEpoch := by
  simp only [NoLowerPending, hi, Phase.pendingEpoch, Option.mem_some_iff, forall_eq',
    not_forall] at hbad
  rcases hbad with ⟨j, epoch, hepoch, hlt⟩
  cases hj : s.handlers j with
  | storing request' =>
      rw [hj] at hepoch
      have heq : request'.epoch = epoch := Option.some_inj.mp hepoch
      have hne : j ≠ i := by
        rintro rfl
        rw [hi] at hj
        rw [← heq, Phase.storing.inj hj] at hlt
        exact hlt le_rfl
      have hj' : (s.setPhase i (.writing request)).handlers j = .storing request' := by
        rw [setPhase_of_ne hne, hj]
      refine ⟨j, _, _, step_store hi, step_store hj', ?_⟩
      rw [heq]
      exact Nat.lt_of_not_le hlt
  | idle => simp [hj] at hepoch
  | started _ => simp [hj] at hepoch
  | writing _ => simp [hj] at hepoch
  | finished _ _ _ => simp [hj] at hepoch

/-! ## Runs of three handlers -/

/-- A new shard on which no handler has started. -/
def fresh : EpochRace (Fin 3) where
  server := {}
  handlers _ := .idle

/-- An insert of a zero vector. -/
def insertAt (epoch : Nat) : WriteRequest :=
  .insert ⟨[97], List.replicate vectorDim 0, [], epoch⟩

instance (s : EpochRace (Fin 3)) (act : HandlerAction (Fin 3)) :
    Decidable (NoLowerPending s act) :=
  match act with
  | .start _ _ => .isTrue trivial
  | .load _ => .isTrue trivial
  | .store h => inferInstanceAs (Decidable (∀ g, ∀ epoch ∈ (s.handlers h).pendingEpoch,
      ∀ epoch' ∈ (s.handlers g).pendingEpoch, epoch ≤ epoch'))
  | .write _ => .isTrue trivial

/-- Two handlers one after the other, the second at the higher epoch. -/
def inOrder : List (HandlerAction (Fin 3)) :=
  [.start 0 (insertAt 5), .start 1 (insertAt 7), .load 0, .store 0, .load 1, .write 0, .store 1,
    .write 1]

/-- A third one behind both. -/
def tooLate : List (HandlerAction (Fin 3)) :=
  [.start 2 (insertAt 6), .load 2]

private theorem inOrder_isSome :
    (guardedRun EpochRace.step NoLowerPending fresh inOrder).isSome := by
  decide +kernel

theorem epoch_never_goes_back_inOrder :
    ∃ s s', Exec EpochRace.step NoLowerPending fresh inOrder s ∧
      Exec EpochRace.step NoLowerPending s tooLate s' ∧ s'.server.currentEpoch = 7 ∧
      HighWaterMark s s' := by
  have hrun := Exec.of_guardedRun EpochRace.step NoLowerPending fresh inOrder inOrder_isSome
  have hrun' := Exec.of_guardedRun EpochRace.step NoLowerPending
    ((guardedRun EpochRace.step NoLowerPending fresh inOrder).get inOrder_isSome) tooLate
    (by decide +kernel)
  exact ⟨_, _, hrun, hrun', by decide +kernel, epoch_never_goes_back (fun _ => rfl) hrun hrun'⟩

/-- Both handlers load before either stores. -/
def racing : List (HandlerAction (Fin 3)) :=
  [.start 0 (insertAt 5), .start 1 (insertAt 7), .load 0, .load 1, .store 1, .write 1]

/-- The lower epoch is stored last, and a third handler behind the first one passes. -/
def overtaken : List (HandlerAction (Fin 3)) :=
  [.store 0, .start 2 (insertAt 6), .load 2, .store 2, .write 2]

private theorem racing_isSome :
    (guardedRun EpochRace.step (fun _ _ => True) fresh racing).isSome := by
  decide +kernel

theorem epoch_goes_back_when_racing :
    ∃ s s', Exec EpochRace.step (fun _ _ => True) fresh racing s ∧
      Exec EpochRace.step (fun _ _ => True) s overtaken s' ∧ s.server.currentEpoch = 7 ∧
      s'.server.currentEpoch = 6 ∧ ¬ HighWaterMark s s' := by
  have hrun := Exec.of_guardedRun EpochRace.step (fun _ _ => True) fresh racing racing_isSome
  have hrun' := Exec.of_guardedRun EpochRace.step (fun _ _ => True)
    ((guardedRun EpochRace.step (fun _ _ => True) fresh racing).get racing_isSome) overtaken
    (by decide +kernel)
  refine ⟨_, _, hrun, hrun', by decide +kernel, by decide +kernel, ?_⟩
  intro hmark
  exact absurd hmark.1 (by decide +kernel)

end EpochRace

end NanoDB.Shard
