/-
# The protocol of the service control manager

The record of a session says what each of its parties has done.  The protocol says of every
moment whether it may follow a record: a service that runs or is paused was confirmed by the
supervisor and rests in the state of the last transition that was applied; an announced stop is
followed by nothing but announcements and the end; and a stop that was accepted makes the end a
clean one.  Every session keeps the protocol.
-/

import Ngsm.Runner.Session

namespace Ngsm.Runner

open Ngsm.Lib
open Ngsm.Supervisor (ExitReason StartupStatus SupervisorError TransitionOutcome)
open Ngsm.Win32.ControlChannel (Agrees Channel Dispatch Event Ledger Method Receive RecvError
  ServiceControl agrees_start controlChannel ledgerOf)

/-- What has happened in a session. -/
structure Record where
  said : Notes := {}
  /-- The supervisor has confirmed its start. -/
  confirmed : Bool := false
  /-- The transitions that were requested; `true` is a pause. -/
  requests : List Bool := []
  /-- The last transition that the supervisor applied is a pause. -/
  paused : Bool := false
  /-- A stop or a shutdown won the terminal decision. -/
  accepted : Bool := false
  ended : Option Joined := none

section

variable {ι : Type}

namespace Record

def note (record : Record) : Moment ι → Record
  | .handler _ (.updated true) => { record with accepted := true }
  | .bridge ⟨.request pause, request⟩ =>
      { record with
        said := record.said.note ⟨.request pause, request⟩
        requests := record.requests ++ [pause] }
  | .bridge said => { record with said := record.said.note said }
  | .confirmed _ => { record with confirmed := true }
  | .settled request outcome =>
      { record with
        paused :=
          if outcome = .applied then record.requests[request]?.getD record.paused
          else record.paused }
  | .ended result => { record with ended := some result }
  | _ => record

def AllowsReport (record : Record) : Status → Prop
  | .running => record.said.Live ∧ record.confirmed = true ∧ record.paused = false
  | .paused => record.said.Live ∧ record.confirmed = true ∧ record.paused = true
  | .stopPending => record.said.final = none
  | .stopped code => record.said.final = none ∧ (record.accepted = true → code = 0)
  | _ => record.said.Live

/-- Only a supervisor that asked for it makes the host crash. -/
def AllowsCrash (record : Record) (code : UInt32) : Prop :=
  record.accepted = false ∧ record.said.failed = false ∧ record.said.final = none ∧
    ∃ exitCode, record.ended = some (some (.ok (.suicide exitCode))) ∧
      code = serviceExitCodeFor (.suicide exitCode)

/-- Which moment may follow a record. -/
def Allows (record : Record) : Moment ι → Prop
  | .bridge ⟨.report status, _⟩ => record.AllowsReport status
  | .bridge ⟨.terminateCurrentProcess code, _⟩ =>
      record.said.final = some (.stopped code) ∨ record.AllowsCrash code
  | _ => True

end Record

def recordOf (moments : List (Moment ι)) : Record :=
  moments.foldl Record.note {}

/-! ## The record, the surroundings and the channel -/

/-- The transition that is open may have been applied before the bridge has seen it. -/
def Surroundings.lastPaused (around : Surroundings) (said : Notes) : Bool :=
  match said.transition with
  | some (request, pause) =>
      if around.requests[request]?.bind (·.outcome) = some .applied then pause else said.paused
  | none => said.paused

/-- The record is right about the surroundings and about the decision in the channel. -/
structure Linked (record : Record) (around : Surroundings) (ledger : Ledger ι) : Prop where
  startup : around.startup ≠ [] → record.confirmed = true
  started : record.said.started = true → record.confirmed = true
  requests : record.requests = around.requests.map (·.pause)
  unsettled : ∀ request asked, around.requests[request]? = some asked → asked.outcome = none →
    record.said.transition = some (request, asked.pause)
  transition : ∀ request pause, record.said.transition = some (request, pause) →
    ∃ outcome, around.requests[request]? = some ⟨pause, outcome⟩
  paused : record.paused = around.lastPaused record.said
  ended : record.ended = around.ended
  joined : ∀ result, record.said.joined = some result → record.ended = some result
  claimed : record.said.claimed = ledger.claims.getLast?
  accepted : record.accepted = ledger.requested
  clean : ∀ final, record.said.final = some final →
    ∃ claimed, record.said.claimed = some claimed ∧ (claimed = true → final = .stopped 0)

variable {record : Record} {around : Surroundings} {ledger : Ledger ι} {channel : Channel ι}

theorem linked_start : Linked {} {} (Ledger.start : Ledger ι) where
  startup := nofun
  started := nofun
  requests := rfl
  unsettled := nofun
  transition := nofun
  paused := rfl
  ended := rfl
  joined := nofun
  claimed := rfl
  accepted := rfl
  clean := nofun

/-- What the bridge says without news of the others. -/
theorem Linked.say (h : Linked record around ledger) {said : Notes} {ledger' : Ledger ι}
    (hstarted : said.started = record.said.started)
    (htransition : said.transition = record.said.transition)
    (hpaused : said.paused = record.said.paused) (hjoined : said.joined = record.said.joined)
    (hclaimed : said.claimed = record.said.claimed) (hclaims : ledger'.claims = ledger.claims)
    (hrequested : ledger'.requested = ledger.requested)
    (hclean : ∀ final, said.final = some final →
      ∃ claimed, said.claimed = some claimed ∧ (claimed = true → final = .stopped 0)) :
    Linked { record with said := said } around ledger' := by
  refine { h with
    started := fun hs => h.started (hstarted ▸ hs)
    unsettled := fun request asked hasked hnone =>
      htransition.trans (h.unsettled request asked hasked hnone)
    transition := fun request pause hopen =>
      h.transition request pause (htransition.symm.trans hopen)
    paused := ?_
    joined := fun result hresult => h.joined result (hjoined.symm.trans hresult)
    claimed := ?_
    accepted := h.accepted.trans hrequested.symm
    clean := hclean }
  · unfold Surroundings.lastPaused
    rw [htransition, hpaused]
    exact h.paused
  · rw [hclaims]
    exact hclaimed.trans h.claimed

/-- The outcomes are what a settled request changes. -/
theorem map_pause_settle (requests : List Asked) (request : ℕ) (outcome : TransitionOutcome) :
    (requests.modify request fun asked => { asked with outcome := some outcome }).map (·.pause) =
      requests.map (·.pause) := by
  apply List.ext_getElem?
  intro i
  rw [List.getElem?_map, List.getElem?_map, List.getElem?_modify]
  cases requests[i]? with
  | none => rfl
  | some asked =>
      change some (if request = i then _ else asked).pause = some asked.pause
      split <;> rfl

theorem Linked.settle (h : Linked record around ledger) {request : ℕ} {outcome : TransitionOutcome}
    (hopen : around.requests[request]?.any (·.outcome.isNone) = true) :
    Linked (record.note (.settled request outcome : Moment ι))
      (around.note (.settled request outcome : Moment ι)) ledger := by
  obtain ⟨asked, hasked, hnone⟩ := (Option.any_eq_true _ _).mp hopen
  have hnone : asked.outcome = none := Option.isNone_iff_eq_none.mp hnone
  have htransition := h.unsettled request asked hasked hnone
  have hself : (around.note (.settled request outcome : Moment ι)).requests[request]? =
      some { asked with outcome := some outcome } := by
    simp only [Surroundings.note, List.getElem?_modify_eq, hasked]
    rfl
  refine { h with
    requests := h.requests.trans (map_pause_settle around.requests request outcome).symm
    unsettled := fun other asked' hasked' hnone' => ?_
    transition := fun other pause hopen => ?_
    paused := ?_ }
  · by_cases hother : other = request
    · rw [hother, hself] at hasked'
      cases hasked'
      cases hnone'
    · simp only [Surroundings.note, List.getElem?_modify_ne _ _ (Ne.symm hother)] at hasked'
      exact h.unsettled other asked' hasked' hnone'
  · obtain ⟨rfl, rfl⟩ : request = other ∧ asked.pause = pause := by
      simpa using htransition.symm.trans hopen
    exact ⟨some outcome, hself⟩
  · have hpaused : record.paused = record.said.paused := by
      rw [h.paused, Surroundings.lastPaused, htransition]
      simp [hasked, hnone]
    have hrequested : record.requests[request]? = some asked.pause := by
      rw [h.requests, List.getElem?_map, hasked]
      rfl
    change (if outcome = .applied then record.requests[request]?.getD record.paused
      else record.paused) = Surroundings.lastPaused _ record.said
    rw [Surroundings.lastPaused, htransition, hrequested, hpaused]
    simp only [hself, Option.bind_some, Option.some.injEq, Option.getD_some]

/-- The bridge asks for a transition when none is open. -/
theorem Linked.ask (h : Linked record around ledger) (pause : Bool)
    (hnone : record.said.transition = none) :
    Linked (record.note (.bridge ⟨.request pause, around.requests.length⟩ : Moment ι))
      (around.note (.bridge ⟨.request pause, around.requests.length⟩ : Moment ι)) ledger := by
  have hsettled : ∀ (request : ℕ) asked, around.requests[request]? = some asked →
      asked.outcome ≠ none := by
    intro request asked hasked hopen
    have htransition := h.unsettled request asked hasked hopen
    rw [hnone] at htransition
    cases htransition
  refine { h with
    requests := ?_
    unsettled := fun request asked hasked hopen => ?_
    transition := fun request other hopen => ?_
    paused := ?_ }
  · change record.requests ++ [pause] = (around.requests ++ [({ pause } : Asked)]).map (·.pause)
    rw [List.map_append, h.requests]
    rfl
  · change (around.requests ++ [({ pause } : Asked)])[request]? = some asked at hasked
    rw [List.getElem?_append] at hasked
    split at hasked
    · exact absurd hopen (hsettled request asked hasked)
    · rename_i hbound
      obtain ⟨hindex, rfl⟩ := List.getElem?_eq_some_iff.mp hasked
      have hlast : request = around.requests.length := by
        rw [List.length_singleton] at hindex
        omega
      rw [List.getElem_singleton, hlast]
      rfl
  · change some (around.requests.length, pause) = some (request, other) at hopen
    cases hopen
    exact ⟨none, List.getElem?_concat_length⟩
  · have hpaused : record.paused = record.said.paused := by
      rw [h.paused, Surroundings.lastPaused, hnone]
    change record.paused = if (around.requests ++ [({ pause } : Asked)])[
      around.requests.length]?.bind (·.outcome) = some .applied then pause else record.said.paused
    rw [List.getElem?_concat_length]
    exact hpaused

/-- The bridge sees the end of the transition that is open. -/
theorem Linked.see (h : Linked record around ledger) {request : ℕ} {pause : Bool}
    {outcome : TransitionOutcome} (hopen : record.said.transition = some (request, pause))
    (houtcome : around.requests[request]?.bind (·.outcome) = some outcome) :
    Linked { record with said := record.said.settle request outcome } around ledger := by
  rw [settle_eq hopen]
  refine { h with
    unsettled := fun other asked hasked hnone => ?_
    transition := nofun
    paused := ?_ }
  · have hsame := hopen.symm.trans (h.unsettled other asked hasked hnone)
    cases hsame
    rw [hasked, Option.bind_some, hnone] at houtcome
    cases houtcome
  · rw [h.paused, Surroundings.lastPaused, hopen]
    simp only [houtcome, Option.some.injEq]
    rfl

/-- The bridge receives the confirmation of the start. -/
theorem Linked.hear (h : Linked record around ledger) {status : StartupStatus}
    (hhead : around.startup.head? = some status) :
    Linked { record with said := { record.said with started := true } }
      { around with startup := around.startup.tail } ledger := by
  have hconfirmed : record.confirmed = true := by
    refine h.startup fun hnil => ?_
    rw [hnil] at hhead
    cases hhead
  exact { h with
    startup := fun _ => hconfirmed
    started := fun _ => hconfirmed }

section

variable [DecidableEq ι]

/-- The ledger of the channel after a moment. -/
def noteMoment (ledger : Ledger ι) (moment : Moment ι) : Ledger ι :=
  match moment.onChannel with
  | some event => ledger.note event
  | none => ledger

theorem noteMoment_received (ledger : Ledger ι) (method : Method)
    (result : Except RecvError ServiceControl) :
    (ledger.note (.receive (.returned method result))).claims = ledger.claims ∧
      (ledger.note (.receive (.returned method result))).requested = ledger.requested := by
  cases result with
  | error error => exact ⟨rfl, rfl⟩
  | ok control => cases control <;> exact ⟨rfl, rfl⟩

theorem Linked.handler (h : Linked record around ledger) (thread : ι) (d : Dispatch) :
    Linked (record.note (.handler thread d)) around (ledger.note (.dispatch thread d)) := by
  cases d with
  | updated won =>
      cases won with
      | true => exact { h with accepted := rfl }
      | false => exact { h with }
  | sent message accepted => cases message <;> cases accepted <;> exact { h with }
  | called control => exact { h with }
  | loadedAlive => exact { h with }
  | loadedDecision => exact { h with }
  | posted shutdown => exact { h with }
  | answered control code => exact { h with }

theorem Linked.receiver (h : Linked record around ledger) (r : Receive) :
    Linked record around (ledger.note (.receive r)) := by
  cases r with
  | swapped taken => cases taken <;> exact { h with }
  | returned method result =>
      obtain ⟨hclaims, hrequested⟩ := noteMoment_received ledger method result
      exact h.say rfl rfl rfl rfl rfl hclaims hrequested h.clean
  | began method => exact { h with }
  | tookDeferred => exact { h with }
  | popped message => exact { h with }
  | emptied error => exact { h with }
  | closing => exact { h with }
  | dropped => exact { h with }

theorem Linked.bridge (h : Linked record around ledger) {session : Session ι}
    (haround : session.around = around) {said : Exchange Call.Answer}
    (hpermitted : session.permitsAnswer said = true) (hproper : record.said.Proper said) :
    Linked (record.note (.bridge said : Moment ι)) (around.note (.bridge said : Moment ι))
      (noteMoment ledger (.bridge said)) := by
  obtain ⟨call, answer⟩ := said
  subst haround
  cases call with
  | startup =>
      have hhead : answer = session.around.startup.head? := of_decide_eq_true hpermitted
      cases answer with
      | some status => exact h.hear hhead.symm
      | none =>
          have hnil : session.around.startup = [] := List.head?_eq_none_iff.mp hhead.symm
          exact { h with startup := fun hne => absurd (congrArg List.tail hnil) hne }
  | request pause =>
      have hanswer : answer = session.around.requests.length := of_decide_eq_true hpermitted
      subst hanswer
      exact h.ask pause hproper
  | outcome request =>
      have houtcome : answer = session.around.requests[request]?.bind (·.outcome) :=
        of_decide_eq_true hpermitted
      obtain ⟨pause, hopen⟩ := hproper
      cases answer with
      | some outcome => exact h.see hopen houtcome.symm
      | none => exact { h with }
  | join =>
      have hended : session.around.ended = some answer := of_decide_eq_true hpermitted
      refine { h with joined := fun result hresult => ?_ }
      cases hresult
      exact h.ended.trans hended
  | claimTerminal =>
      refine { h with
        claimed := List.getLast?_concat.symm
        clean := fun final hfinal => ?_ }
      have hopen : record.said.final = none := hproper
      rw [show record.said.final = some final from hfinal] at hopen
      cases hopen
  | report status =>
      cases status with
      | stopped code =>
          obtain ⟨-, claimed, hclaimed, hcode⟩ := hproper
          refine h.say rfl rfl rfl rfl rfl rfl rfl fun final hfinal => ⟨claimed, hclaimed, ?_⟩
          cases hfinal
          exact fun hclaim => congrArg Terminal.stopped (hcode hclaim)
      | _ => exact h.say rfl rfl rfl rfl rfl rfl rfl h.clean
  | diagnose operation message => exact h.say rfl rfl rfl rfl rfl rfl rfl h.clean
  | terminateCurrentProcess code =>
      refine h.say rfl rfl rfl rfl rfl rfl rfl fun final hfinal => ?_
      rcases hproper with hstopped | ⟨hclaimed, -, hopen, -⟩
      · refine h.clean final ?_
        rw [hstopped]
        simpa [Notes.note, hstopped] using hfinal
      · exact ⟨false, hclaimed, fun hclaim => absurd hclaim Bool.false_ne_true⟩
  | tryRecv =>
      obtain ⟨hclaims, hrequested⟩ := noteMoment_received ledger .tryRecv answer
      exact h.say rfl rfl rfl rfl rfl hclaims hrequested h.clean
  | recvTimeout timeout =>
      obtain ⟨hclaims, hrequested⟩ := noteMoment_received ledger .recvTimeout answer
      exact h.say rfl rfl rfl rfl rfl hclaims hrequested h.clean
  | now => exact { h with }
  | stopRequested => exact { h with }
  | isFinished => exact { h with }
  | stop => exact { h with }
  | rotate => exact { h with }
  | powerEvent event => exact { h with }
  | cancel request => exact { h with }
  | isReady => exact { h with }
  | release => exact { h with }
  | flush => exact { h with }

/-- Every moment of a session that the bridge's conduct allows keeps the record right. -/
theorem Linked.step (h : Linked record around ledger) {session session' : Session ι}
    (haround : session.around = around) {moment : Moment ι}
    (hstep : Stepped session moment session')
    (hproper : ∀ said, moment = .bridge said → record.said.Proper said) :
    Linked (record.note moment) (around.note moment) (noteMoment ledger moment) := by
  have hpermitted := hstep.permitted
  cases moment with
  | handler thread d => exact h.handler thread d
  | receiver r => exact h.receiver r
  | bridge said => exact h.bridge haround hpermitted (hproper said rfl)
  | confirmed status =>
      exact { h with
        startup := fun _ => rfl
        started := fun _ => rfl }
  | settled request outcome =>
      subst haround
      exact h.settle hpermitted
  | ended result =>
      refine { h with
        ended := rfl
        joined := fun other hother => ?_ }
      have hended : session.around.ended = none := Option.isNone_iff_eq_none.mp hpermitted
      have hjoined := h.joined other hother
      rw [h.ended, ← haround, hended] at hjoined
      cases hjoined

end

/-! ## The protocol -/

theorem said_bridge (record : Record) (said : Exchange Call.Answer) :
    (record.note (.bridge said : Moment ι)).said = record.said.note said := by
  obtain ⟨call, answer⟩ := said
  cases call <;> rfl

theorem said_handler (record : Record) (thread : ι) (d : Dispatch) :
    (record.note (.handler thread d)).said = record.said := by
  rcases d with _ | _ | _ | ⟨_ | _⟩ | _ | _ | _ <;> rfl

/-- A claim knows whether a stop was accepted. -/
theorem Linked.decided (h : Linked record around ledger) (hagrees : Agrees ledger channel)
    {claimed : Bool} (hclaimed : record.said.claimed = some claimed) :
    record.accepted = claimed := by
  rw [h.claimed] at hclaimed
  rw [h.accepted]
  exact (hagrees.claims claimed (List.mem_of_getLast? hclaimed)).symm

theorem Linked.rests (h : Linked record around ledger) {paused : Bool}
    (hrests : record.said.Rests paused) :
    record.said.Live ∧ record.confirmed = true ∧ record.paused = paused := by
  obtain ⟨hlive, hstarted, htransition, hpaused⟩ := hrests
  refine ⟨hlive, h.started hstarted, ?_⟩
  rw [h.paused, Surroundings.lastPaused, htransition]
  exact hpaused

/-- What is proper for the bridge is what the protocol allows. -/
theorem Linked.allows (h : Linked record around ledger) (hagrees : Agrees ledger channel)
    {said : Exchange Call.Answer} (hproper : record.said.Proper said) :
    record.Allows (.bridge said : Moment ι) := by
  obtain ⟨call, answer⟩ := said
  cases call with
  | report status =>
      cases status with
      | running => exact h.rests hproper
      | paused => exact h.rests hproper
      | stopped code =>
          obtain ⟨hopen, claimed, hclaimed, hcode⟩ := hproper
          refine ⟨hopen, fun haccepted => hcode ?_⟩
          rw [← h.decided hagrees hclaimed]
          exact haccepted
      | startPending => exact hproper
      | pausePending => exact hproper
      | continuePending => exact hproper
      | stopPending => exact hproper
  | terminateCurrentProcess code =>
      rcases hproper with hstopped | ⟨hclaimed, hfailed, hopen, exitCode, hjoined, hcode⟩
      · exact .inl hstopped
      · refine .inr ⟨h.decided hagrees hclaimed, hfailed, hopen, exitCode, ?_, hcode⟩
        exact h.joined _ hjoined
  | _ => trivial

variable [DecidableEq ι]

/-- The invariant of a session. -/
structure Sustained (moments : List (Moment ι)) (session : Session ι) : Prop where
  allowed : EachEvent (fun before moment => (recordOf before).Allows moment) moments
  conducted : session.bridge.Keeps conduct
    (fun finished notes => finished = true → notes.final.isSome = true) (recordOf moments).said
  channel : Agrees (moments.foldl noteMoment .start) session.channel
  linked : Linked (recordOf moments) session.around (moments.foldl noteMoment .start)

theorem sustained_start (timing : Timing) (rounds : ℕ) :
    Sustained [] (Session.start timing rounds : Session ι) where
  allowed := .nil
  conducted := keeps_bridgeAndFinish timing rounds
  channel := agrees_start
  linked := linked_start

theorem agrees_moment {ledger : Ledger ι} {session session' : Session ι} {moment : Moment ι}
    (h : Agrees ledger session.channel) (hstep : Stepped session moment session') :
    Agrees (noteMoment ledger moment) session'.channel := by
  have hchannel := hstep.channel
  unfold Session.stepChannel at hchannel
  unfold noteMoment
  cases hevent : moment.onChannel with
  | some event =>
      rw [hevent] at hchannel
      exact (h.step hchannel).2
  | none =>
      rw [hevent] at hchannel
      rw [← Option.some.inj hchannel]
      exact h

/-- What a moment of the bridge says is proper, and the rest of the dialogue keeps to the
code. -/
theorem conduct_moment {notes : Notes} {Q : Bool → Notes → Prop} {session session' : Session ι}
    {said : Exchange Call.Answer} (h : session.bridge.Keeps conduct Q notes)
    (hstep : Stepped session (.bridge said) session') :
    notes.Proper said ∧ session'.bridge.Keeps conduct Q (notes.note said) := by
  obtain ⟨next, hcall, hnext⟩ := Dialogue.resume_eq_some hstep.bridge
  rw [hcall] at h
  rw [hnext]
  exact h said.answer

theorem conduct_step {record : Record} {Q : Bool → Notes → Prop} {session session' : Session ι}
    {moment : Moment ι} (h : session.bridge.Keeps conduct Q record.said)
    (hstep : Stepped session moment session') :
    session'.bridge.Keeps conduct Q (record.note moment).said := by
  have hbridge := hstep.bridge
  cases moment with
  | bridge said =>
      rw [said_bridge]
      exact (conduct_moment h hstep).2
  | handler thread d =>
      rw [said_handler, ← Option.some.inj hbridge]
      exact h
  | receiver r =>
      rw [← Option.some.inj hbridge]
      exact h
  | confirmed status =>
      rw [← Option.some.inj hbridge]
      exact h
  | settled request outcome =>
      rw [← Option.some.inj hbridge]
      exact h
  | ended result =>
      rw [← Option.some.inj hbridge]
      exact h

theorem Sustained.step {moments : List (Moment ι)} {session session' : Session ι}
    {moment : Moment ι} (h : Sustained moments session) (hstep : Stepped session moment session') :
    Sustained (moments ++ [moment]) session' := by
  have hrecord : recordOf (moments ++ [moment]) = (recordOf moments).note moment := by
    rw [recordOf, List.foldl_append]
    rfl
  have hledger : (moments ++ [moment]).foldl noteMoment (Ledger.start : Ledger ι) =
      noteMoment (moments.foldl noteMoment .start) moment := by
    rw [List.foldl_append]
    rfl
  have hproper : ∀ said, moment = .bridge said → (recordOf moments).said.Proper said := by
    rintro said rfl
    exact (conduct_moment h.conducted hstep).1
  have hallows : (recordOf moments).Allows moment := by
    cases moment with
    | bridge said => exact h.linked.allows h.channel (hproper said rfl)
    | _ => trivial
  refine ⟨h.allowed.concat hallows, ?_, ?_, ?_⟩
  · rw [hrecord]
    exact conduct_step h.conducted hstep
  · rw [hledger]
    exact agrees_moment h.channel hstep
  · rw [hrecord, hledger, hstep.around]
    exact h.linked.step rfl hstep hproper

/-- What the protocol promises of a session: every moment was allowed; once a stop has won, the
host ends in no other way than as stopped with 0; and a bridge that has returned has said how
the host ends. -/
structure Kept (moments : List (Moment ι)) (session : Session ι) : Prop where
  allowed : EachEvent (fun before moment => (recordOf before).Allows moment) moments
  clean : (recordOf moments).accepted = true →
    ∀ final, (recordOf moments).said.final = some final → final = .stopped 0
  concluded : session.bridge = .done true → (recordOf moments).said.final.isSome = true

theorem sustained_of_run {timing : Timing} {rounds : ℕ} {moments : List (Moment ι)}
    {session : Session ι}
    (hrun : Runs.run Session.step (Session.start timing rounds) moments = some session) :
    Sustained moments session :=
  Runs.run_history Sustained (sustained_start timing rounds)
    (fun _ _ _ _ hpast hstep => hpast.step (step_cases hstep)) hrun

/-- Every session keeps the protocol of the service control manager. -/
theorem protocol_of_run {timing : Timing} {rounds : ℕ} {moments : List (Moment ι)}
    {session : Session ι}
    (hrun : Runs.run Session.step (Session.start timing rounds) moments = some session) :
    Kept moments session := by
  have h := sustained_of_run hrun
  refine ⟨h.allowed, fun haccepted final hfinal => ?_, fun hdone => ?_⟩
  · obtain ⟨claimed, hclaimed, hstopped⟩ := h.linked.clean final hfinal
    rw [h.linked.decided h.channel hclaimed] at haccepted
    exact hstopped haccepted
  · have hconduct := h.conducted
    rw [hdone] at hconduct
    exact hconduct rfl

end

/-- The start is confirmed, a stop is accepted, and the supervisor ends. -/
def stoppedSession : List (Moment Unit) :=
  [.bridge ⟨.now, (0 : ℕ)⟩, .bridge ⟨.report .startPending, (none : Option String)⟩,
    .receiver (.began .tryRecv), .receiver (.swapped none), .receiver .tookDeferred,
    .receiver (.emptied .empty), .receiver (.swapped none),
    .bridge ⟨.tryRecv, (.error .empty : Except RecvError ServiceControl)⟩,
    .bridge ⟨.stopRequested, false⟩, .bridge ⟨.isReady, false⟩, .bridge ⟨.isFinished, false⟩,
    .confirmed .running, .bridge ⟨.startup, some StartupStatus.running⟩,
    .bridge ⟨.report .running, (none : Option String)⟩, .bridge ⟨.now, (40 : ℕ)⟩,
    .bridge ⟨.now, (41 : ℕ)⟩, .receiver (.began .recvTimeout), .receiver (.swapped none),
    .receiver .tookDeferred, .handler () (.called .stop), .handler () .loadedAlive,
    .handler () .loadedDecision, .handler () (.updated true), .handler () (.posted false),
    .receiver (.emptied .timeout), .receiver (.swapped (some .stop)),
    .handler () (.sent .wake true), .handler () (.answered .stop 0),
    .bridge ⟨.recvTimeout 250, (.ok .stop : Except RecvError ServiceControl)⟩,
    .receiver (.began .tryRecv), .receiver (.swapped none), .receiver .tookDeferred,
    .receiver (.popped .wake), .receiver (.swapped none), .receiver .tookDeferred,
    .receiver (.emptied .empty), .receiver (.swapped none),
    .bridge ⟨.tryRecv, (.error .empty : Except RecvError ServiceControl)⟩,
    .bridge ⟨.stopRequested, true⟩, .bridge ⟨.isReady, true⟩, .bridge ⟨.claimTerminal, true⟩,
    .bridge ⟨.stop, ()⟩, .bridge ⟨.release, ()⟩, .bridge ⟨.now, (300 : ℕ)⟩,
    .bridge ⟨.report .stopPending, (none : Option String)⟩, .bridge ⟨.now, (300 : ℕ)⟩,
    .ended (some (.ok .stopped)), .bridge ⟨.isFinished, true⟩,
    .bridge ⟨.join, (some (.ok .stopped) : Joined)⟩, .bridge ⟨.release, ()⟩,
    .bridge ⟨.claimTerminal, true⟩, .bridge ⟨.report (.stopped 0), (none : Option String)⟩]

theorem protocol_stoppedSession :
    Kept stoppedSession
      ((Runs.run Session.step (Session.start {} 2) stoppedSession).get (by decide +kernel)) :=
  protocol_of_run (Option.some_get _).symm

end Ngsm.Runner
