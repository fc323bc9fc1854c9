import Arcal.Lacal.Protocol
import Arcal.Lib.Table

/-! A client's session: what `Client` keeps, the lines it sends, and `handleLine`. -/

namespace Arcal.Lacal

open JsonText (Value)

structure XSub where
  streamId : Bytes
  topicPattern : Bytes
  messagePattern : Bytes := utf8 "*"
  deriving DecidableEq

structure StandardSub where
  subscriptionId : Bytes
  messageName : Bytes
  topic : Bytes
  deriving DecidableEq

structure Session where
  isOpen : Bool := true
  initialized : Bool := false
  verbose : Bool := true
  serviceId : Bytes := []
  xsubs : List XSub := []
  standardSubs : Table Bytes StandardSub := .empty
  concreteSubs : Table Bytes Bytes := .empty
  nextSubId : UInt64 := 1

structure Concrete where
  streamId : Bytes
  topicName : Bytes
  messageName : Bytes
  deriving DecidableEq

/-- A line to the client: `-ERR`, `+OK`, `INFO`, `XSUBINFO` or `MSG` and what stands behind it.
A `MSG` on behalf of an `XSUB` knows what it is sent for; its text does not show it. -/
inductive Line
  | err (detail : Bytes)
  | ok
  | info (json : Bytes)
  | xsubInfo (concrete : Concrete) (subId : Bytes)
  | msg (wildcard : Option Concrete) (subId json : Bytes)
  deriving DecidableEq

/-- What a handler does: the session it leaves, the lines it sends, and whether the session
is closed behind them. -/
structure Handled where
  session : Session
  lines : List Line
  closes : Bool := false

namespace Session

def refuse (s : Session) (detail : String) : Handled := ⟨s, [.err (utf8 detail)], false⟩

/-- `if (client.verbose) client.sendLine("+OK")` -/
def confirm (s : Session) : Handled := ⟨s, if s.verbose then [.ok] else [], false⟩

end Session

/-- The key order of `std::map`; a later member replaces an earlier one of its name. -/
def insertMember (name : Bytes) (value : Value) : List (Bytes × Value) → List (Bytes × Value)
  | [] => [(name, value)]
  | member :: rest =>
      if name < member.1 then (name, value) :: member :: rest
      else if name = member.1 then (name, value) :: rest
      else member :: insertMember name value rest

/-- What a range-based `for` over a JSON value visits; a scalar visits itself. -/
def elements : Value → List Value
  | .null => []
  | .array items => items
  | .object members =>
      (members.foldl (fun map member => insertMember member.1 member.2 map) []).map Prod.snd
  | value => [value]

def typeName : Value → Bytes
  | .null => utf8 "null"
  | .bool _ => utf8 "boolean"
  | .number _ => utf8 "number"
  | .string _ => utf8 "string"
  | .array _ => utf8 "array"
  | .object _ => utf8 "object"

def typeError (expected : String) (value : Value) : Exc :=
  .jsonException (utf8 "[json.exception.type_error.302] type must be " ++ utf8 expected ++
    utf8 ", but is " ++ typeName value)

def getString : Value → Except Exc Bytes
  | .string text => .ok text
  | value => .error (typeError "string" value)

def getBool : Value → Except Exc Bool
  | .bool b => .ok b
  | value => .error (typeError "boolean" value)

/-- The loop over `versions`: once one is found, the others are not looked at. -/
def supports10 : List Value → Except Exc Bool
  | [] => .ok false
  | version :: rest => do
      let text ← getString version
      if text = utf8 "1.0" then .ok true else supports10 rest

/-- `init.value("verbose", true)` -/
def verboseOf (members : List (Bytes × Value)) : Except Exc Bool :=
  match Json.find members (utf8 "verbose") with
  | some value => getBool value
  | none => .ok true

def refuseInit (s : Session) (e : Exc) : Handled :=
  ⟨s, [.err (utf8 "Illegal-Argument " ++ e.what)], true⟩

def refuseInitWith (s : Session) (detail : String) : Handled := ⟨s, [.err (utf8 detail)], true⟩

/-- `parse` is `nlohmann::json::parse`. A session that is refused is closed. -/
def handleInit (parse : Bytes → Except Exc Value) (port : UInt16) (s : Session) (rest : Bytes) :
    Handled :=
  if s.initialized then refuseInitWith s "Illegal-State INIT already received"
  else
    match parse rest with
    | .error e => refuseInit s e
    | .ok (.object members) =>
        match Json.find members (utf8 "versions"), Json.find members (utf8 "schema"),
            Json.find members (utf8 "service_id") with
        | some versions, some _, some service =>
            match supports10 (elements versions) with
            | .error e => refuseInit s e
            | .ok false =>
                refuseInitWith s "Unsupported-Version no supported OWP version"
            | .ok true =>
                match verboseOf members with
                | .error e => refuseInit s e
                | .ok verbose =>
                    match getString service with
                    | .error e => refuseInit { s with verbose } e
                    | .ok serviceId =>
                        let s := { s with verbose, serviceId, initialized := true }
                        match makeInfoJson serviceId port with
                        | .error e => refuseInit s e
                        | .ok info =>
                            ⟨s, .info info :: if s.verbose then [.ok] else [], false⟩
        | _, _, _ => refuseInitWith s "Illegal-Argument INIT missing required field"
    | .ok _ => refuseInitWith s "Illegal-Argument INIT missing required field"

def handleXSub (s : Session) (rest : Bytes) : Handled :=
  let add (xsub : XSub) : Handled := { s with xsubs := s.xsubs ++ [xsub] }.confirm
  match splitFields rest with
  | [streamId, topicPattern] =>
      if validToken streamId then add { streamId, topicPattern }
      else s.refuse "Illegal-Argument invalid stream-id"
  | [streamId, topicPattern, messagePattern] =>
      if validToken streamId then add { streamId, topicPattern, messagePattern }
      else s.refuse "Illegal-Argument invalid stream-id"
  | _ => s.refuse "Illegal-Argument XSUB requires stream-id topic-pattern [message-pattern]"

/-- The group is checked and then ignored. -/
def handleSub (s : Session) (rest : Bytes) : Handled :=
  let add (subscriptionId messageName topic : Bytes) (group : List Bytes) : Handled :=
    if validToken subscriptionId && validToken topic && group.all validToken then
      if absent : s.standardSubs.find subscriptionId = none then
        { s with
          standardSubs := s.standardSubs.add subscriptionId
            { subscriptionId, messageName, topic } absent }.confirm
      else s.refuse "Illegal-State subscription-id already in use"
    else s.refuse "Illegal-Argument invalid SUB token"
  match splitFields rest with
  | [subscriptionId, messageName, topic] => add subscriptionId messageName topic []
  | [subscriptionId, messageName, topic, group] => add subscriptionId messageName topic [group]
  | _ => s.refuse "Illegal-Argument SUB requires subscription-id message-name topic [group]"

def handleUnsub (s : Session) (rest : Bytes) : Handled :=
  match splitFields rest with
  | [subscriptionId] =>
      if validToken subscriptionId then
        if s.standardSubs.find subscriptionId = none then
          s.refuse "Illegal-State subscription-id is not active"
        else { s with standardSubs := s.standardSubs.eraseIf (· == subscriptionId) }.confirm
      else s.refuse "Illegal-Argument UNSUB requires subscription-id"
  | _ => s.refuse "Illegal-Argument UNSUB requires subscription-id"

def newline : UInt8 := 0x0a

def Concrete.key (concrete : Concrete) : Bytes :=
  concrete.streamId ++ [newline] ++ concrete.topicName ++ [newline] ++ concrete.messageName

/-- `it->first.rfind(streamId + "\n", 0) == 0` -/
def keyOfStream (streamId key : Bytes) : Bool := (streamId ++ [newline]).isPrefixOf key

def handleXUnsub (s : Session) (rest : Bytes) : Handled :=
  match splitFields rest with
  | [streamId] =>
      if validToken streamId then
        { s with
          xsubs := s.xsubs.filter fun xsub => xsub.streamId ≠ streamId
          concreteSubs := s.concreteSubs.eraseIf (keyOfStream streamId) }.confirm
      else s.refuse "Illegal-Argument XUNSUB requires stream-id"
  | _ => s.refuse "Illegal-Argument XUNSUB requires stream-id"

/-- Nothing is done about a blank line. -/
def handleLine (parse : Bytes → Except Exc Value) (port : UInt16) (s : Session) (payload : Bytes) :
    Handled :=
  match firstField payload with
  | none => ⟨s, [], false⟩
  | some (op, rest) =>
      if op = utf8 "INIT" then handleInit parse port s rest
      else if s.initialized = false then
        refuseInitWith s "Illegal-State INIT must be first operation"
      else if op = utf8 "XSUB" then handleXSub s rest
      else if op = utf8 "XUNSUB" then handleXUnsub s rest
      else if op = utf8 "SUB" then handleSub s rest
      else if op = utf8 "UNSUB" then handleUnsub s rest
      else if op = utf8 "PUB" then
        s.refuse "Illegal-State operation not implemented in this arlacal-server build"
      else s.refuse "Illegal-Argument unknown operation"

end Arcal.Lacal
