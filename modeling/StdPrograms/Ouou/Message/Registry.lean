import StdPrograms.Ouou.Message.Request
import StdPrograms.Ouou.Message.Response

/-!
Contract: the package with its three registries filled, and what a header
finds in them.

Does not own the classes.
-/

namespace StdPrograms.Ouou

open StdPrograms.Foundation

def package (host : Host) : Package where
  request_messages := request_messages host
  response_messages := (responseRegistry host).response_messages
  push_messages := (responseRegistry host).push_messages
  decompress := host.decompress

/-! ### Requests -/

theorem get_owner_cls_request {host : Host} {cls : MessageClass} {header : Header}
    (member : cls ∈ requestClasses host) (fromClient : header.c2s = true)
    (id : header.msg_id = cls.MSG_ID) :
    (package host).get_owner_cls header = .ok cls := by
  simp only [Package.get_owner_cls, fromClient, if_true, package, id,
    request_messages_get member]

/-! ### Responses and pushes -/

/-- Definitions of responses leave what is registered for them. -/
private theorem define_responses (classes : List MessageClass) (registry : ResponseRegistry) :
    ((classes.map ClassDefinition.response).foldl ResponseRegistry.define
      registry).response_messages =
      classes.foldl (fun dict cls => dict.set cls.MSG_ID cls) registry.response_messages := by
  induction classes generalizing registry with
  | nil => rfl
  | cons cls rest inductionHypothesis =>
      rw [List.map_cons, List.foldl_cons, List.foldl_cons, inductionHypothesis]
      rfl

private theorem define_pushes (classes : List MessageClass) (registry : ResponseRegistry) :
    ((classes.map ClassDefinition.push).foldl ResponseRegistry.define
      registry).response_messages = registry.response_messages := by
  induction classes generalizing registry with
  | nil => rfl
  | cons cls rest inductionHypothesis =>
      rw [List.map_cons, List.foldl_cons, inductionHypothesis]
      rfl

theorem responseRegistry_responses (host : Host) :
    (responseRegistry host).response_messages = ClassDict.ofClasses (responseClasses host) := by
  rw [responseRegistry, List.foldl_append, define_pushes, define_responses]
  rfl

theorem responseClasses_distinct (host : Host) :
    ((responseClasses host).map MessageClass.MSG_ID).Nodup :=
  of_decide_eq_true rfl

theorem get_owner_cls_response {host : Host} {cls : MessageClass} {header : Header}
    (member : cls ∈ responseClasses host) (fromServer : header.c2s = false)
    (notPush : header.is_push_msg = false) (id : header.msg_id = cls.MSG_ID) :
    (package host).get_owner_cls header = .ok cls := by
  simp only [Package.get_owner_cls, fromServer, notPush, Bool.false_eq_true, if_false, package,
    id, responseRegistry_responses, ClassDict.get_ofClasses (responseClasses_distinct host) member]

/-- What is found under an identifier is one of these classes, and its own. -/
def ClassDict.Registers (dict : ClassDict) (classes : List MessageClass) : Prop :=
  ∀ {MSG_ID : Nat} {cls : MessageClass}, dict.get MSG_ID = some cls →
    cls ∈ classes ∧ cls.MSG_ID = MSG_ID

private theorem registers_set {dict : ClassDict} {classes : List MessageClass}
    (registers : dict.Registers classes) {cls : MessageClass} (member : cls ∈ classes) :
    (dict.set cls.MSG_ID cls).Registers classes := by
  intro MSG_ID found present
  by_cases same : MSG_ID = cls.MSG_ID
  · subst same
    rw [ClassDict.get_set_self] at present
    cases Option.some.inj present
    exact ⟨member, rfl⟩
  · rw [ClassDict.get_set_other _ _ same] at present
    exact registers present

def ClassDefinition.cls : ClassDefinition → MessageClass
  | response cls => cls
  | push cls => cls

private theorem define_registers {classes : List MessageClass}
    (definitions : List ClassDefinition)
    (members : ∀ definition ∈ definitions, definition.cls ∈ classes)
    {registry : ResponseRegistry} (responses : registry.response_messages.Registers classes)
    (pushes : registry.push_messages.Registers classes) :
    (definitions.foldl ResponseRegistry.define registry).response_messages.Registers classes ∧
      (definitions.foldl ResponseRegistry.define registry).push_messages.Registers classes := by
  induction definitions generalizing registry with
  | nil => exact ⟨responses, pushes⟩
  | cons definition rest inductionHypothesis =>
      have member := members definition List.mem_cons_self
      rw [List.foldl_cons]
      refine inductionHypothesis
        (fun later isLater => members later (List.mem_cons_of_mem _ isLater)) ?_ ?_
      · cases definition with
        | response cls => exact registers_set responses member
        | push cls => exact responses
      · cases definition with
        | response cls =>
            unfold ResponseRegistry.define
            dsimp only
            split
            · exact pushes
            · exact registers_set pushes member
        | push cls => exact registers_set pushes member

private theorem ofClasses_registers {classes members : List MessageClass}
    (contained : ∀ cls ∈ classes, cls ∈ members) {dict : ClassDict}
    (registers : dict.Registers members) :
    (classes.foldl (fun dict cls => dict.set cls.MSG_ID cls) dict).Registers members := by
  induction classes generalizing dict with
  | nil => exact registers
  | cons cls rest inductionHypothesis =>
      rw [List.foldl_cons]
      apply inductionHypothesis
      · intro later isLater
        exact contained later (List.mem_cons_of_mem _ isLater)
      · exact registers_set registers (contained cls List.mem_cons_self)

theorem request_messages_registers (host : Host) :
    (request_messages host).Registers (requestClasses host) := by
  apply ofClasses_registers
  · exact fun _ member => member
  · intro MSG_ID cls present
    cases present

private theorem get_owner_cls_fromClient {package : Package} {header : Header}
    {cls : MessageClass} (fromClient : header.c2s = true)
    (found : package.get_owner_cls header = .ok cls) :
    package.request_messages.get header.msg_id = some cls := by
  simp only [Package.get_owner_cls, fromClient, if_true] at found
  split at found
  next present =>
    cases Except.ok.inj found
    exact present
  next => contradiction

/-- What a server finds for a header is a request class of its identifier. -/
theorem get_owner_cls_client {host : Host} {header : Header} {cls : MessageClass}
    (fromClient : header.c2s = true) (found : (package host).get_owner_cls header = .ok cls) :
    cls ∈ requestClasses host ∧ cls.MSG_ID = header.msg_id := by
  have present := get_owner_cls_fromClient fromClient found
  simp only [package] at present
  exact request_messages_registers host present

/-- The classes of what a client may receive. -/
def serverClasses (host : Host) : List MessageClass := responseClasses host ++ pushClasses host

theorem responseRegistry_registers (host : Host) :
    (responseRegistry host).response_messages.Registers (serverClasses host) ∧
      (responseRegistry host).push_messages.Registers (serverClasses host) := by
  refine define_registers _ (fun definition member => ?_) nofun nofun
  rcases List.mem_append.mp member with isResponse | isPush
  · obtain ⟨cls, registered, rfl⟩ := List.mem_map.mp isResponse
    exact List.mem_append_left _ registered
  · obtain ⟨cls, registered, rfl⟩ := List.mem_map.mp isPush
    exact List.mem_append_right _ registered

private theorem get_owner_cls_fromServer {package : Package} {header : Header}
    {cls : MessageClass} (fromServer : header.c2s = false)
    (found : package.get_owner_cls header = .ok cls) :
    package.push_messages.get header.msg_id = some cls ∨
      package.response_messages.get header.msg_id = some cls := by
  simp only [Package.get_owner_cls, fromServer, Bool.false_eq_true, if_false] at found
  split at found
  next present =>
    cases Except.ok.inj found
    split at present
    · exact .inl present
    · exact .inr present
  next => contradiction

/-- What a client finds for a header is a server class of its identifier. -/
theorem get_owner_cls_server {host : Host} {header : Header} {cls : MessageClass}
    (fromServer : header.c2s = false) (found : (package host).get_owner_cls header = .ok cls) :
    cls ∈ serverClasses host ∧ cls.MSG_ID = header.msg_id := by
  have present := get_owner_cls_fromServer fromServer found
  simp only [package] at present
  rcases present with isPush | isResponse
  · exact (responseRegistry_registers host).2 isPush
  · exact (responseRegistry_registers host).1 isResponse

theorem serverClasses_ids (host : Host) :
    ∀ cls ∈ serverClasses host, 5500 ≤ cls.MSG_ID ∧ cls.MSG_ID < 5520 :=
  of_decide_eq_true rfl

end StdPrograms.Ouou
