import OpcConfig.Library.Parties
import OpcConfig.SyncClient

/-! # Service calls as a conversation

A server that keeps a record of its calls turns a run of a client into the list
of its requests with their answers, also where an exception ends the run.
-/

namespace OpcConfig

set_option autoImplicit false

open Parties

inductive Request
  | connect
  | browse (nodeId : NodeId)
  | read (nodeId : NodeId)
  | write (nodeId : NodeId) (value : Variant)
  | addVariableNode (request : AddNodesRequest)
  deriving DecidableEq

inductive Reply
  | status (code : StatusCode)
  | browsed (response : BrowseResponse)
  | read (response : ReadResponse)
  deriving DecidableEq

abbrev Exchange := Request × Reply

def Request.isQuery : Request → Bool
  | connect | browse _ | read _ => true
  | write _ _ | addVariableNode _ => false

variable {σ : Type}

namespace Server

def serve (srv : Server σ) (s : σ) : Request → Reply × σ
  | .connect => (.status (srv.connect s).1, (srv.connect s).2)
  | .browse nodeId => (.browsed (srv.browse nodeId s).1, (srv.browse nodeId s).2)
  | .read nodeId => (.read (srv.read nodeId s).1, (srv.read nodeId s).2)
  | .write nodeId value => (.status (srv.write nodeId value s).1, (srv.write nodeId value s).2)
  | .addVariableNode request =>
    (.status (srv.addVariableNode request s).1, (srv.addVariableNode request s).2)

/-- The server with a record of all calls in its state. -/
def recorded (srv : Server σ) : Server (σ × List Exchange) where
  connect s :=
    let answer := srv.connect s.1
    (answer.1, answer.2, s.2 ++ [(.connect, .status answer.1)])
  browse nodeId s :=
    let answer := srv.browse nodeId s.1
    (answer.1, answer.2, s.2 ++ [(.browse nodeId, .browsed answer.1)])
  read nodeId s :=
    let answer := srv.read nodeId s.1
    (answer.1, answer.2, s.2 ++ [(.read nodeId, .read answer.1)])
  write nodeId value s :=
    let answer := srv.write nodeId value s.1
    (answer.1, answer.2, s.2 ++ [(.write nodeId value, .status answer.1)])
  addVariableNode request s :=
    let answer := srv.addVariableNode request s.1
    (answer.1, answer.2, s.2 ++ [(.addVariableNode request, .status answer.1)])

/-- A call to one of the servers that a client has in the course of its passes. -/
def Serves (srv : Nat → Server σ) (q : Request) (s : σ) (a : Reply) (s' : σ) : Prop :=
  ∃ t, (srv t).serve s q = (a, s')

end Server

/-- The record of a run from `s` is what the servers have answered, and each call
was allowed by the ones before it. -/
structure Talks (srv : Nat → Server σ) (allowed : List Exchange → Request → Prop) (s : σ)
    (x : σ × List Exchange) : Prop where
  answered : Answered (Server.Serves srv) s x.2 x.1
  lawful : Lawful allowed x.2

namespace Talks

variable {srv : Nat → Server σ} {allowed : List Exchange → Request → Prop} {s : σ}
  {x : σ × List Exchange}

theorem start (srv : Nat → Server σ) (allowed : List Exchange → Request → Prop) (s : σ) :
    Talks srv allowed s (s, []) := ⟨.nil, lawful_nil _⟩

theorem serve (h : Talks srv allowed s x) (t : Nat) {q : Request} (hAllowed : allowed x.2 q) :
    Talks srv allowed s (((srv t).serve x.1 q).2, x.2 ++ [(q, ((srv t).serve x.1 q).1)]) where
  answered := .snoc h.answered ⟨t, rfl⟩
  lawful := lawful_snoc.mpr ⟨h.lawful, hAllowed⟩

theorem connect (h : Talks srv allowed s x) (t : Nat) (hAllowed : allowed x.2 .connect) :
    Talks srv allowed s ((srv t).recorded.connect x).2 := h.serve t hAllowed

theorem browse (h : Talks srv allowed s x) (t : Nat) {nodeId : NodeId}
    (hAllowed : allowed x.2 (.browse nodeId)) :
    Talks srv allowed s ((srv t).recorded.browse nodeId x).2 := h.serve t hAllowed

theorem read (h : Talks srv allowed s x) (t : Nat) {nodeId : NodeId}
    (hAllowed : allowed x.2 (.read nodeId)) :
    Talks srv allowed s ((srv t).recorded.read nodeId x).2 := h.serve t hAllowed

theorem write (h : Talks srv allowed s x) (t : Nat) {nodeId : NodeId} {value : Variant}
    (hAllowed : allowed x.2 (.write nodeId value)) :
    Talks srv allowed s ((srv t).recorded.write nodeId value x).2 := h.serve t hAllowed

theorem addVariableNode (h : Talks srv allowed s x) (t : Nat) {request : AddNodesRequest}
    (hAllowed : allowed x.2 (.addVariableNode request)) :
    Talks srv allowed s ((srv t).recorded.addVariableNode request x).2 := h.serve t hAllowed

end Talks

/-- The last attempt to connect went through. -/
def Connected (before : List Exchange) : Prop :=
  ∃ earlier later, before = earlier ++ (.connect, .status StatusCode.good) :: later ∧
    ∀ e ∈ later, e.1 ≠ .connect

/-- The browse of the Objects folder with this response is in the record. -/
def Browsed (before : List Exchange) (response : BrowseResponse) : Prop :=
  (Request.browse NodeId.objectsFolder, Reply.browsed response) ∈ before

/-- A browse has listed the node as a variable. -/
def Referenced (before : List Exchange) (ref : ReferenceDescription) : Prop :=
  ref.nodeClass = .variable ∧ ∃ response, Browsed before response ∧ ref ∈ response.references

/-- The last call read this value of the node. -/
def JustRead (before : List Exchange) (nodeId : NodeId) (value : Variant) : Prop :=
  ∃ earlier response, before = earlier ++ [(.read nodeId, .read response)] ∧
    response.value = some value

theorem Connected.snoc {before : List Exchange} (h : Connected before) {q : Request}
    (hq : q ≠ .connect) (a : Reply) : Connected (before ++ [(q, a)]) := by
  obtain ⟨earlier, later, rfl, hLater⟩ := h
  refine ⟨earlier, later ++ [(q, a)], by rw [List.append_assoc, List.cons_append], ?_⟩
  exact List.forall_mem_append.mpr ⟨hLater, List.forall_mem_singleton.mpr hq⟩

theorem connected_snoc_good (before : List Exchange) :
    Connected (before ++ [(.connect, .status StatusCode.good)]) :=
  ⟨before, [], rfl, fun _ h => absurd h List.not_mem_nil⟩

theorem connected_of_good {srv : Server σ} {x : σ × List Exchange}
    (h : (srv.recorded.connect x).1 = StatusCode.good) : Connected (srv.recorded.connect x).2.2 := by
  have hStatus : (srv.connect x.1).1 = StatusCode.good := h
  change Connected (x.2 ++ [(.connect, .status (srv.connect x.1).1)])
  rw [hStatus]
  exact connected_snoc_good _

theorem Browsed.append {before : List Exchange} {response : BrowseResponse}
    (h : Browsed before response) (l : List Exchange) : Browsed (before ++ l) response :=
  List.mem_append_left _ h

theorem Referenced.append {before : List Exchange} {ref : ReferenceDescription}
    (h : Referenced before ref) (l : List Exchange) : Referenced (before ++ l) ref := by
  obtain ⟨hClass, response, hBrowsed, hRef⟩ := h
  exact ⟨hClass, response, hBrowsed.append l, hRef⟩

/-! ## The state in a pass -/

/-- The connection stands and the browse was answered with `response`. -/
structure Passing (srv : Nat → Server σ) (allowed : List Exchange → Request → Prop) (s : σ)
    (response : BrowseResponse) (x : σ × List Exchange) : Prop where
  talks : Talks srv allowed s x
  connected : Connected x.2
  browsed : Browsed x.2 response

namespace Passing

variable {srv : Nat → Server σ} {allowed : List Exchange → Request → Prop} {s : σ}
  {response : BrowseResponse} {x : σ × List Exchange}

theorem referenced (h : Passing srv allowed s response x) {ref : ReferenceDescription}
    (hClass : ref.nodeClass = .variable) (hRef : ref ∈ response.references) : Referenced x.2 ref :=
  ⟨hClass, response, h.browsed, hRef⟩

theorem read (h : Passing srv allowed s response x) (t : Nat) {nodeId : NodeId}
    (hAllowed : allowed x.2 (.read nodeId)) :
    Passing srv allowed s response ((srv t).recorded.read nodeId x).2 :=
  ⟨h.talks.read t hAllowed, h.connected.snoc (fun hq => by cases hq) _, h.browsed.append _⟩

theorem write (h : Passing srv allowed s response x) (t : Nat) {nodeId : NodeId} {value : Variant}
    (hAllowed : allowed x.2 (.write nodeId value)) :
    Passing srv allowed s response ((srv t).recorded.write nodeId value x).2 :=
  ⟨h.talks.write t hAllowed, h.connected.snoc (fun hq => by cases hq) _, h.browsed.append _⟩

theorem addVariableNode (h : Passing srv allowed s response x) (t : Nat) {request : AddNodesRequest}
    (hAllowed : allowed x.2 (.addVariableNode request)) :
    Passing srv allowed s response ((srv t).recorded.addVariableNode request x).2 :=
  ⟨h.talks.addVariableNode t hAllowed, h.connected.snoc (fun hq => by cases hq) _,
    h.browsed.append _⟩

theorem start (h : Talks srv allowed s x) (t : Nat) (hConnected : Connected x.2)
    (hAllowed : allowed x.2 (.browse NodeId.objectsFolder)) :
    Passing srv allowed s ((srv t).browse NodeId.objectsFolder x.1).1
      ((srv t).recorded.browse NodeId.objectsFolder x).2 :=
  ⟨h.browse t hAllowed, hConnected.snoc (fun hq => by cases hq) _, List.mem_concat_self⟩

end Passing

end OpcConfig
