/-
# One connection of the broker

The broker runs elevated, and every process of its owner can connect to it.  A request
is carried out when it parses, carries the token of this launch, and the broker still
admits work; the first frame that is not such a request ends the connection.

The parser of the requests, the operations behind them, the admission and the pipe are
given from outside, frame by frame.
-/

import Ngsm.Lib.Text

namespace Ngsm.Broker

open Ngsm.Lib

/-! ## Requests and responses -/

/-- A request with arguments in some representation of JSON values. -/
structure Request (Value : Type) where
  id : Option String := none
  token : Option String := none
  op : String
  args : Value
  deriving DecidableEq, Repr

structure Response (Value : Type) where
  id : Option String
  status : String
  result : Option Value
  error : Option String
  deriving DecidableEq, Repr

namespace Response

variable {Value : Type}

def ok (id : Option String) (result : Value) : Response Value :=
  { id, status := "ok", result := some result, error := none }

def err (id : Option String) (message : String) : Response Value :=
  { id, status := "error", result := none, error := some message }

end Response

/-- The bytes of a string. -/
def bytes (s : String) : List UInt8 :=
  s.toByteArray.data.toList

/-- Compare a presented token byte by byte, without stopping at a difference. -/
def tokenMatches (expected : String) : Option String → Bool
  | none => false
  | some presented =>
      if (bytes expected).length ≠ (bytes presented).length then
        false
      else
        ((bytes expected).zip (bytes presented)).foldl
          (fun diff pair => diff ||| (pair.1 ^^^ pair.2)) (0 : UInt8) == 0

/-- What a field of the audit trail may hold at most. -/
def maxField : ℕ :=
  256

/-- Neutralise a text that a caller chose. -/
def sanitizeLog (s : String) : String :=
  let out := (s.toList.take maxField).map fun c => if Text.isControl c then '\ufffd' else c
  if maxField < s.toList.length then String.ofList (out ++ ['…']) else String.ofList out

structure AuditRecord where
  op : String
  target : String
  result : String
  error : Option String := none
  deriving DecidableEq, Repr

inductive FrameOutcome where
  | authenticated
  | rejected
  deriving DecidableEq, Repr

structure PreparedResponse (Value : Type) where
  response : Response Value
  outcome : FrameOutcome

/-! ## Serving a connection -/

/-- A received frame, with what the rest of the broker does about it: whether work is
admitted, what an operation answers, and whether a response can be sent. -/
structure Turn (Value : Type) where
  frame : List UInt8
  admits : Bool → Bool
  dispatch : Request Value → Except String Value
  sends : Response Value → Bool

/-- What a connection has done: the requests that were carried out, the responses that
were given to the pipe, and the audit trail. -/
structure Trace (Value : Type) where
  dispatched : List (Request Value) := []
  responses : List (Response Value) := []
  audit : List AuditRecord := []

section

variable {Value : Type} (parse : List UInt8 → Except String (Request Value))
  (nameArg : Value → Option String) (authToken : String)

/-- Carry out an authorised request. -/
def serve (req : Request Value) (turn : Turn Value) (trace : Trace Value) :
    PreparedResponse Value × Trace Value :=
  let op := sanitizeLog req.op
  let target := sanitizeLog ((nameArg req.args).getD "-")
  let dispatched := trace.dispatched ++ [req]
  match turn.dispatch req with
  | .ok value =>
      ({ response := .ok req.id value, outcome := .authenticated },
        { trace with dispatched, audit := trace.audit ++ [{ op, target, result := "ok" }] })
  | .error msg =>
      ({ response := .err req.id msg, outcome := .authenticated },
        { trace with dispatched, audit := trace.audit ++
          [{ op, target, result := "error", error := some (sanitizeLog msg) }] })

/-- Treat one frame; nothing is answered once the broker is about to exit. -/
def processRequest (turn : Turn Value) (trace : Trace Value) :
    Option (PreparedResponse Value × Trace Value) :=
  match parse turn.frame with
  | .error e =>
      if turn.admits false then
        some ({ response := .err none ("invalid request: " ++ e), outcome := .rejected }, trace)
      else
        none
  | .ok req =>
      if !tokenMatches authToken req.token then
        if turn.admits false then
          let op := sanitizeLog req.op
          let target := sanitizeLog ((nameArg req.args).getD "-")
          some ({ response := .err none "unauthorized: invalid capability token"
                  outcome := .rejected },
            { trace with audit := trace.audit ++
              [{ op, target, result := "rejected", error := some "invalid capability token" }] })
        else
          none
      else if turn.admits true then
        some (serve nameArg req turn trace)
      else
        none

/-- Serve the frames of a connection, until it has to end. -/
def handleConnection : List (Turn Value) → Trace Value → Trace Value
  | [], trace => trace
  | turn :: rest, trace =>
      match processRequest parse nameArg authToken turn trace with
      | none => trace
      | some (prepared, trace) =>
          let trace := { trace with responses := trace.responses ++ [prepared.response] }
          if !turn.sends prepared.response then trace
          else if prepared.outcome = .rejected then trace
          else handleConnection rest trace

end

/-! ## The token -/

theorem foldl_diff_eq_zero (pairs : List (UInt8 × UInt8)) (diff : UInt8) :
    pairs.foldl (fun diff pair => diff ||| (pair.1 ^^^ pair.2)) diff = 0 ↔
      diff = 0 ∧ ∀ pair ∈ pairs, pair.1 = pair.2 := by
  induction pairs generalizing diff with
  | nil => simp
  | cons pair pairs ih =>
      rw [List.foldl_cons, ih, UInt8.or_eq_zero_iff, UInt8.xor_eq_zero_iff, and_assoc,
        List.forall_mem_cons]

theorem forall_zip_iff {α : Type} {xs ys : List α} (hlength : xs.length = ys.length) :
    (∀ pair ∈ xs.zip ys, pair.1 = pair.2) ↔ xs = ys := by
  induction xs generalizing ys with
  | nil => simp [(List.eq_nil_of_length_eq_zero hlength.symm : ys = [])]
  | cons x xs ih =>
      cases ys with
      | nil => cases hlength
      | cons y ys =>
          rw [List.zip_cons_cons, List.forall_mem_cons, ih (Nat.succ.inj hlength),
            List.cons_eq_cons]

theorem bytes_injective {a b : String} (h : bytes a = bytes b) : a = b := by
  rw [← String.toByteArray_inj]
  exact ByteArray.ext (Array.toList_inj.mp h)

/-- The comparison accepts exactly the expected token. -/
theorem tokenMatches_iff (expected : String) (presented : Option String) :
    tokenMatches expected presented = true ↔ presented = some expected := by
  cases presented with
  | none => exact iff_of_false (by simp [tokenMatches]) (by simp)
  | some presented =>
      rw [tokenMatches, Option.some_inj]
      split
      · rename_i hlength
        refine iff_of_false (by simp) ?_
        rintro rfl
        exact hlength rfl
      · rename_i hlength
        rw [not_not] at hlength
        rw [beq_iff_eq, foldl_diff_eq_zero]
        rw [forall_zip_iff hlength]
        constructor
        · rintro ⟨-, hbytes⟩
          exact (bytes_injective hbytes).symm
        · rintro rfl
          exact ⟨rfl, rfl⟩

/-! ## What a connection does -/

section

variable {Value : Type} (parse : List UInt8 → Except String (Request Value))
  (nameArg : Value → Option String) (authToken : String)

/-- The request of a frame that parses, carries the token and is admitted. -/
def authorised (turn : Turn Value) : Option (Request Value) :=
  match parse turn.frame with
  | .ok req => if req.token = some authToken ∧ turn.admits true = true then some req else none
  | .error _ => none

/-- The response to an authorised frame. -/
def answer (turn : Turn Value) (req : Request Value) : Response Value :=
  match turn.dispatch req with
  | .ok value => .ok req.id value
  | .error msg => .err req.id msg

/-- The responses of the authorised frames, in order. -/
def answers (turns : List (Turn Value)) : List (Response Value) :=
  turns.filterMap fun turn => (authorised parse authToken turn).map (answer turn)

/-- The response to the frame could be sent. -/
def answerSent (turn : Turn Value) : Bool :=
  ((authorised parse authToken turn).map (answer turn)).any turn.sends

/-- A list up to the first element that fails, which is kept. -/
def upToFailure {α : Type} (succeeds : α → Bool) : List α → List α
  | [] => []
  | x :: xs => if succeeds x then x :: upToFailure succeeds xs else [x]

/-- The longest prefix of authorised frames, cut after the first response that could not
be sent. -/
def served (turns : List (Turn Value)) : List (Turn Value) :=
  upToFailure (answerSent parse authToken)
    (turns.takeWhile fun turn => (authorised parse authToken turn).isSome)

variable {parse authToken}

/-- A frame that is not authorised carries nothing out, and gets an error without an
identifier, or nothing. -/
theorem processRequest_other {turn : Turn Value}
    (h : authorised parse authToken turn = none) (trace : Trace Value) :
    processRequest parse nameArg authToken turn trace = none ∨
      ∃ message trace', processRequest parse nameArg authToken turn trace =
          some ({ response := .err none message, outcome := .rejected }, trace') ∧
        trace'.dispatched = trace.dispatched ∧ trace'.responses = trace.responses := by
  unfold authorised at h
  unfold processRequest
  split at h
  · rename_i req hparse
    rw [hparse]
    dsimp only
    split
    · split
      · exact .inr ⟨_, _, rfl, rfl, rfl⟩
      · exact .inl rfl
    · rename_i htoken
      rw [Bool.not_eq_true', Bool.not_eq_false, tokenMatches_iff] at htoken
      split
      · rename_i hadmits
        rw [if_pos ⟨htoken, hadmits⟩] at h
        cases h
      · exact .inl rfl
  · rename_i hparse
    rw [hparse]
    dsimp only
    split
    · exact .inr ⟨_, _, rfl, rfl, rfl⟩
    · exact .inl rfl

/-- An authorised frame is carried out. -/
theorem processRequest_authorised {turn : Turn Value} {req : Request Value}
    (h : authorised parse authToken turn = some req) (trace : Trace Value) :
    processRequest parse nameArg authToken turn trace = some (serve nameArg req turn trace) := by
  unfold authorised at h
  unfold processRequest
  split at h
  · rename_i hparse
    split at h
    · rename_i hauthorised
      cases h
      have htoken : (!tokenMatches authToken req.token) = false := by
        rw [Bool.not_eq_false', tokenMatches_iff]
        exact hauthorised.1
      rw [hparse]
      simp only [htoken, Bool.false_eq_true, if_false, hauthorised.2, if_true]
    · cases h
  · cases h

/-- What carrying out a request leaves. -/
theorem serve_effect (req : Request Value) (turn : Turn Value) (trace : Trace Value) :
    (serve nameArg req turn trace).1 =
        { response := answer turn req, outcome := .authenticated } ∧
      (serve nameArg req turn trace).2.dispatched = trace.dispatched ++ [req] ∧
      (serve nameArg req turn trace).2.responses = trace.responses := by
  unfold serve answer
  cases turn.dispatch req with
  | ok value => exact ⟨rfl, rfl, rfl⟩
  | error msg => exact ⟨rfl, rfl, rfl⟩

/-- A frame that is not authorised ends the connection. -/
theorem handleConnection_other {turn : Turn Value} (h : authorised parse authToken turn = none)
    (trace : Trace Value) : ∃ trace' extra,
      (∀ rest, handleConnection parse nameArg authToken (turn :: rest) trace = trace') ∧
      trace'.dispatched = trace.dispatched ∧ trace'.responses = trace.responses ++ extra ∧
      extra.length ≤ 1 ∧ ∀ response ∈ extra, response.status = "error" ∧ response.id = none := by
  rcases processRequest_other nameArg h trace with
    hsilent | ⟨message, trace', hrejected, hdispatched, hresponses⟩
  · refine ⟨trace, [], ?_, rfl, (List.append_nil _).symm, Nat.zero_le _, by simp⟩
    intro rest
    rw [handleConnection, hsilent]
  · refine ⟨{ trace' with responses := trace'.responses ++ [.err none message] },
      [.err none message], ?_, hdispatched, ?_, Nat.le_refl _, ?_⟩
    · intro rest
      rw [handleConnection, hrejected]
      dsimp only
      split <;> rfl
    · rw [← hresponses]
    · intro response hresponse
      rw [List.mem_singleton.mp hresponse]
      exact ⟨rfl, rfl⟩

/-- An authorised frame is carried out and answered. -/
theorem handleConnection_authorised {turn : Turn Value} {req : Request Value}
    (h : authorised parse authToken turn = some req) (trace : Trace Value) :
    ∃ trace', trace'.dispatched = trace.dispatched ++ [req] ∧
      trace'.responses = trace.responses ++ [answer turn req] ∧
      ∀ rest, handleConnection parse nameArg authToken (turn :: rest) trace =
        if answerSent parse authToken turn then
          handleConnection parse nameArg authToken rest trace'
        else trace' := by
  obtain ⟨hprepared, hdispatched, hresponses⟩ := serve_effect nameArg req turn trace
  refine ⟨{ (serve nameArg req turn trace).2 with
    responses := (serve nameArg req turn trace).2.responses ++ [answer turn req] },
    hdispatched, by rw [← hresponses], ?_⟩
  intro rest
  have hsent : answerSent parse authToken turn = turn.sends (answer turn req) := by
    rw [answerSent, h]
    rfl
  rw [handleConnection, processRequest_authorised nameArg h, hsent]
  dsimp only
  rw [hprepared]
  cases turn.sends (answer turn req) <;> rfl

theorem served_cons (turn : Turn Value) (rest : List (Turn Value)) :
    served parse authToken (turn :: rest) =
      if (authorised parse authToken turn).isSome then
        turn :: if answerSent parse authToken turn then served parse authToken rest else []
      else [] := by
  unfold served
  rw [List.takeWhile_cons]
  split
  · rw [upToFailure]
    split <;> rfl
  · rfl

/-- The whole connection: the served frames are carried out and answered, and at most one
error is sent besides. -/
theorem handleConnection_served (turns : List (Turn Value)) (trace : Trace Value) :
    (handleConnection parse nameArg authToken turns trace).dispatched =
        trace.dispatched ++
          (served parse authToken turns).filterMap (authorised parse authToken) ∧
      ∃ extra, (handleConnection parse nameArg authToken turns trace).responses =
          trace.responses ++ answers parse authToken (served parse authToken turns) ++ extra ∧
        extra.length ≤ 1 ∧
        ∀ response ∈ extra, response.status = "error" ∧ response.id = none := by
  induction turns generalizing trace with
  | nil => exact ⟨(List.append_nil _).symm, [], by simp [handleConnection, served, answers,
      upToFailure], Nat.zero_le _, by simp⟩
  | cons turn rest ih =>
      cases hturn : authorised parse authToken turn with
      | none =>
          obtain ⟨trace', extra, hend, hdispatched, hresponses, hextra⟩ :=
            handleConnection_other nameArg hturn trace
          have hnone : served parse authToken (turn :: rest) = [] := by
            rw [served_cons, hturn]
            rfl
          rw [hend rest, hnone]
          refine ⟨hdispatched.trans (List.append_nil _).symm, extra, ?_, hextra⟩
          rw [hresponses]
          exact congrArg (· ++ extra) (List.append_nil _).symm
      | some req =>
          obtain ⟨trace', hdispatched, hresponses, hnext⟩ :=
            handleConnection_authorised nameArg hturn trace
          have hanswers : ∀ later, answers parse authToken (turn :: later) =
              answer turn req :: answers parse authToken later := by
            intro later
            rw [answers, List.filterMap_cons_some (by rw [hturn]; rfl)]
            rfl
          rw [hnext, served_cons, hturn, Option.isSome_some, if_pos rfl]
          split
          · obtain ⟨hrest, extra, hsent, hextra⟩ := ih trace'
            rw [hdispatched] at hrest
            rw [hresponses] at hsent
            refine ⟨?_, extra, ?_, hextra⟩
            · rw [hrest, List.filterMap_cons_some hturn, List.append_assoc, List.singleton_append]
            · rw [hsent, hanswers]
              simp
          · refine ⟨?_, [], ?_, Nat.zero_le _, by simp⟩
            · rw [hdispatched, List.filterMap_cons_some hturn, List.filterMap_nil]
            · rw [hresponses, hanswers, List.append_nil]
              rfl

/-- Nothing behind a frame that is not authorised is looked at. -/
theorem handleConnection_cut {other : Turn Value}
    (h : authorised parse authToken other = none) (front later later' : List (Turn Value))
    (trace : Trace Value) :
    handleConnection parse nameArg authToken (front ++ other :: later) trace =
      handleConnection parse nameArg authToken (front ++ other :: later') trace := by
  induction front generalizing trace with
  | nil =>
      obtain ⟨trace', extra, hend, -⟩ := handleConnection_other nameArg h trace
      exact (hend later).trans (hend later').symm
  | cons turn front ih =>
      rw [List.cons_append, List.cons_append, handleConnection, handleConnection]
      split
      · rfl
      · split
        · rfl
        · split
          · rfl
          · exact ih _

/-- A wrong or missing token gets a response that depends on nothing in the request. -/
theorem unauthorized_response {turn : Turn Value} {req : Request Value}
    (hparse : parse turn.frame = .ok req) (htoken : req.token ≠ some authToken)
    (trace : Trace Value) :
    (processRequest parse nameArg authToken turn trace).map (fun prepared =>
        prepared.1.response) =
      if turn.admits false then
        some (.err none "unauthorized: invalid capability token")
      else none := by
  have hmismatch : (!tokenMatches authToken req.token) = true := by
    rw [Bool.not_eq_true', ← Bool.not_eq_true, tokenMatches_iff]
    exact htoken
  unfold processRequest
  rw [hparse]
  dsimp only
  rw [if_pos hmismatch]
  split <;> rfl

/-- A connection carries out the authorised frames and nothing else, says at most one
thing besides their answers, stops at the first other frame, and tells a caller without
the token nothing about its request. -/
theorem connection_authorised (turns : List (Turn Value)) :
    (handleConnection parse nameArg authToken turns {}).dispatched =
        (served parse authToken turns).filterMap (authorised parse authToken) ∧
      (∃ extra, (handleConnection parse nameArg authToken turns {}).responses =
          answers parse authToken (served parse authToken turns) ++ extra ∧
        extra.length ≤ 1 ∧
        ∀ response ∈ extra, response.status = "error" ∧ response.id = none) ∧
      (∀ front other later later', authorised parse authToken other = none →
        handleConnection parse nameArg authToken (front ++ other :: later) {} =
          handleConnection parse nameArg authToken (front ++ other :: later') {}) ∧
      (∀ turn req trace, parse turn.frame = .ok req → req.token ≠ some authToken →
        (processRequest parse nameArg authToken turn trace).map (fun prepared =>
            prepared.1.response) =
          if turn.admits false then
            some (.err none "unauthorized: invalid capability token")
          else none) ∧
      ∀ presented, tokenMatches authToken presented = true ↔ presented = some authToken := by
  obtain ⟨hdispatched, extra, hresponses, hextra⟩ :=
    handleConnection_served nameArg turns {}
  refine ⟨hdispatched, ⟨extra, hresponses, hextra⟩, ?_, ?_, tokenMatches_iff authToken⟩
  · intro front other later later' hother
    exact handleConnection_cut nameArg hother front later later' {}
  · intro turn req trace hparse htoken
    exact unauthorized_response nameArg hparse htoken trace

end

/-- A frame for each kind of request: with the token, without it, and no request. -/
def parseSample : List UInt8 → Except String (Request String)
  | [0] => .ok { id := some "1", token := some "secret", op := "ping", args := "-" }
  | [1] => .ok { id := some "2", op := "remove", args := "web" }
  | _ => .error "expected value"

def sampleTurn (frame : List UInt8) : Turn String where
  frame := frame
  admits _ := true
  dispatch _ := .ok "pong"
  sends _ := true

/-- The request behind the one without a token is not carried out. -/
theorem sample_connection_authorised :
    (handleConnection parseSample some "secret"
        [sampleTurn [0], sampleTurn [1], sampleTurn [0]] {}).dispatched =
      [{ id := some "1", token := some "secret", op := "ping", args := "-" }] :=
  (connection_authorised some [sampleTurn [0], sampleTurn [1], sampleTurn [0]]).1

end Ngsm.Broker
