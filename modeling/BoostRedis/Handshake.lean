import BoostRedis.Adapter.Generic
import BoostRedis.Request.Wire

/-!
# Handshakes

A connection that has been established starts with a handshake, in which `HELLO` and perhaps
`SELECT` are sent, and the replies are checked for errors.  The handshaker keeps one generic
response for all handshakes.  It is cleared before each of them, unless it holds an error.

The check tells the outcome of every handshake of a sequence exactly if no other node comes after
an error in all their replies, and every handshake with an error in a reply has a reply that is an
error.

What is sent follows the configuration, which leaves authentication out if the name of the user or
the password is empty, except that the name of the user is not looked at without a name of the
client.
-/

namespace Redis

open Resp3

/-! ### The handshaker -/

/-- The members of the configuration of a connection that a handshake uses, with their
defaults. -/
structure ConnectionConfig where
  username : Bytes := ascii "default"
  password : Bytes := []
  clientname : Bytes := ascii "Boost.Redis"
  databaseIndex : Option ℤ := some 0
deriving DecidableEq, Repr

/-- The arguments of `HELLO`. -/
def helloArgs (cfg : ConnectionConfig) : List Bytes :=
  if cfg.username ≠ [] && cfg.password ≠ [] && cfg.clientname ≠ [] then
    [ascii "3", ascii "AUTH", cfg.username, cfg.password, ascii "SETNAME", cfg.clientname]
  else if cfg.password = [] && cfg.clientname = [] then [ascii "3"]
  else if cfg.clientname = [] then [ascii "3", ascii "AUTH", cfg.username, cfg.password]
  else [ascii "3", ascii "SETNAME", cfg.clientname]

/-- `push_hello`. -/
def pushHello (cfg : ConnectionConfig) (req : Request) : Request :=
  let req := req.push (ascii "HELLO") (helloArgs cfg)
  match cfg.databaseIndex with
  | none => req
  | some i => if i ≠ 0 then req.pushArgs (ascii "SELECT") [.int i] else req

/-- The state of a `resp3_handshaker`. -/
structure Handshaker where
  helloReq : Request := {}
  helloResp : Result (List Node) := .ok []
  cfg : ConnectionConfig := {}

namespace Handshaker

/-- `set_config`. -/
def setConfig (h : Handshaker) (cfg : ConnectionConfig) : Handshaker := { h with cfg := cfg }

/-- `add_hello`.  Only a vector is cleared. -/
def addHello (h : Handshaker) : Handshaker where
  helloReq := pushHello h.cfg h.helloReq.clear
  helloResp :=
    match h.helloResp with
    | .ok _ => .ok []
    | .error e => .error e
  cfg := h.cfg

/-- `has_error_in_response`. -/
def hasErrorInResponse (h : Handshaker) : Bool :=
  match h.helloResp with
  | .error _ => true
  | .ok nds => hasErrorNode nds

end Handshaker

/-! ### Handshakes -/

/-- Every handshake has a command to which there is a reply. -/
theorem pushHello_expectedResponses_pos (cfg : ConnectionConfig) (req : Request) :
  0 < (pushHello cfg req).expectedResponses
  := by
  simp only [pushHello]
  split
  · apply Nat.succ_pos
  · split <;> apply Nat.succ_pos

/-- A handshake: the configuration it is made with, and a reply to each of its commands. -/
structure Handshake where
  config : ConnectionConfig
  replies : List Value
  replies_length : replies.length = (pushHello config {}).expectedResponses

namespace Handshake

/-- The nodes of all replies. -/
def nodes (k : Handshake) : List Node := k.replies.flatMap (Value.nodes 0)

/-- Whether one of the replies is an error. -/
def isRefused (k : Handshake) : Bool := k.replies.any fun v => isErrorType v.dataType

end Handshake

/-- A handshake is made: the request is set up, and the replies are delivered. -/
def Handshaker.shake (h : Handshaker) (k : Handshake) : Except Thrown Handshaker :=
  let h := (h.setConfig k.config).addHello
  match vectorAdapter.read h.helloResp (k.replies.map (Value.nodes 0)) with
  | .error t => .error t
  | .ok (r, _) => .ok { h with helloResp := r }

/-- Handshakes are made one after the other.  After each it is checked whether there is an
error. -/
def Handshaker.shakeAll : Handshaker → List Handshake → Except Thrown (List Bool)
  | _, [] => .ok []
  | h, k :: ks =>
      match h.shake k with
      | .error t => .error t
      | .ok h => (h.shakeAll ks).map (h.hasErrorInResponse :: ·)

/-! ### The outcome of a handshake -/

namespace Handshake

variable {k : Handshake}

/-- A reply that is an error has a node that is one. -/
theorem hasErrorNode_of_isRefused (h : k.isRefused = true) :
  hasErrorNode k.nodes = true
  := by
  obtain ⟨v, hmem, herror⟩ := List.any_eq_true.mp h
  obtain ⟨nd, nds, hnodes, htype⟩ := v.exists_nodes_eq_cons 0
  rw [hasErrorNode_iff]
  refine ⟨nd, ?_, by rw [htype, herror]⟩
  rw [nodes, List.mem_flatMap]
  exact ⟨v, hmem, by simp [hnodes]⟩

/-- If all nodes are errors, a reply is one. -/
theorem isRefused_of_forall (h : ∀ nd ∈ k.nodes, isErrorType nd.dataType = true) :
  k.isRefused = true
  := by
  cases hreplies : k.replies with
  | nil =>
      have hlength := k.replies_length
      rw [hreplies] at hlength
      exact absurd hlength (pushHello_expectedResponses_pos _ _).ne
  | cons v vs =>
      obtain ⟨nd, nds, hnodes, htype⟩ := v.exists_nodes_eq_cons 0
      have hnd : isErrorType nd.dataType = true := by
        apply h
        simp [nodes, hreplies, hnodes]
      rw [isRefused, hreplies, List.any_cons, ← htype, hnd, Bool.true_or]

end Handshake

namespace Handshaker

variable {h : Handshaker} {k : Handshake}

/-- The response of the next handshake before its replies. -/
def cleared (h : Handshaker) : Result (List Node) := h.addHello.helloResp

/-- The replies of a handshake are collected. -/
theorem shake_eq :
  h.shake k = (feedUntil collect k.nodes h.cleared).map fun p =>
    { (h.setConfig k.config).addHello with helloResp := p.1 }
  := by
  have hread : vectorAdapter.read ((h.setConfig k.config).addHello).helloResp
      (k.replies.map (Value.nodes 0)) = feedUntil collect k.nodes h.cleared := by
    rw [vectorAdapter_read, ← List.flatMap_def]
    rfl
  rw [shake, hread]
  cases feedUntil collect k.nodes h.cleared <;> rfl

theorem shake_of_collect {r : Result (List Node)}
    (hfed : feedUntil collect k.nodes h.cleared = .ok (r, none)) :
  ∃ h', h.shake k = .ok h' ∧ h'.helloResp = r
  := by
  rw [shake_eq, hfed]
  exact ⟨_, rfl, rfl⟩

theorem shake_throws {t : Thrown} (hfed : feedUntil collect k.nodes h.cleared = .error t) :
  h.shake k = .error t
  := by
  rw [shake_eq, hfed]
  rfl

/-- The check tells the outcomes if it does for the first handshake, and from then on. -/
theorem shakeAll_cons {ks : List Handshake} {h' : Handshaker} (hshake : h.shake k = .ok h') :
  h.shakeAll (k :: ks) = .ok ((k :: ks).map Handshake.isRefused)
    ↔ h'.hasErrorInResponse = k.isRefused ∧ h'.shakeAll ks = .ok (ks.map Handshake.isRefused)
  := by
  simp only [shakeAll, hshake]
  cases h'.shakeAll ks <;> simp [Except.map]

theorem shakeAll_cons_throws {ks : List Handshake} {t : Thrown} {outcomes : List Bool}
    (hfed : feedUntil collect k.nodes h.cleared = .error t) :
  h.shakeAll (k :: ks) ≠ .ok outcomes
  := by
  rw [shakeAll, shake_throws hfed]
  simp

/-- After a handshake that ended with an error, the check tells the outcome of every handshake
exactly if all nodes are errors. -/
theorem shakeAll_of_error :
  ∀ {ks : List Handshake} {h : Handshaker} {e : RespError}, h.helloResp = .error e →
    (h.shakeAll ks = .ok (ks.map Handshake.isRefused)
      ↔ ∀ nd ∈ ks.flatMap Handshake.nodes, isErrorType nd.dataType = true)
  | [], _, _, _ => by
      simp [shakeAll]
  | k :: ks, h, e, herror => by
      have hcleared : h.cleared = .error e := by
        rw [cleared, addHello, herror]
      rw [List.flatMap_cons, List.forall_mem_append]
      by_cases hall : ∀ nd ∈ k.nodes, isErrorType nd.dataType = true
      · obtain ⟨e', _, hfed⟩ := collect_errors e hall
        obtain ⟨h', hshake, hresp⟩ := shake_of_collect (hcleared ▸ hfed)
        have hcheck : h'.hasErrorInResponse = k.isRefused := by
          rw [hasErrorInResponse, hresp, Handshake.isRefused_of_forall hall]
        rw [shakeAll_cons hshake, and_iff_right hcheck, and_iff_right hall]
        apply shakeAll_of_error hresp
      · have hfed : feedUntil collect k.nodes (.error e) = .error .systemError := by
          apply collect_throws_of_exists
          push Not at hall
          obtain ⟨nd, hmem, hnd⟩ := hall
          exact ⟨nd, hmem, Bool.eq_false_of_not_eq_true hnd⟩
        constructor
        · intro h
          exact absurd h (shakeAll_cons_throws (hcleared ▸ hfed))
        · intro h
          exact absurd h.1 hall

/-- The check tells the outcome of every handshake exactly if errors come last, and a handshake
with an error in a reply has a reply that is an error. -/
theorem shakeAll_of_ok :
  ∀ {ks : List Handshake} {h : Handshaker} {nds : List Node}, h.helloResp = .ok nds →
    (h.shakeAll ks = .ok (ks.map Handshake.isRefused)
      ↔ ErrorsLast (ks.flatMap Handshake.nodes)
        ∧ ∀ k ∈ ks, hasErrorNode k.nodes = true → k.isRefused = true)
  | [], _, _, _ => by
      simp [shakeAll, ErrorsLast]
  | k :: ks, h, nds, hok => by
      have hcleared : h.cleared = .ok [] := by
        rw [cleared, addHello, hok]
      rw [List.flatMap_cons, errorsLast_append, List.forall_mem_cons]
      by_cases hlast : ErrorsLast k.nodes
      · cases herror : hasErrorNode k.nodes with
        | false =>
            -- Without an error the response holds a vector, which the next handshake clears.
            obtain ⟨h', hshake, hresp⟩ := shake_of_collect (hcleared ▸ collect_values [] herror)
            have hrefused : k.isRefused = false := by
              by_contra hrefused
              have hnode := Handshake.hasErrorNode_of_isRefused
                (Bool.eq_true_of_not_eq_false hrefused)
              rw [herror] at hnode
              cases hnode
            have hcheck : h'.hasErrorInResponse = k.isRefused := by
              rw [hasErrorInResponse, hresp, hrefused]
              apply herror
            rw [shakeAll_cons hshake, and_iff_right hcheck, shakeAll_of_ok hresp]
            simp [hlast]
        | true =>
            -- The error stays, so that all nodes to come have to be errors.
            obtain ⟨nd, _, _, hfed⟩ := collect_errorsLast [] hlast herror
            obtain ⟨h', hshake, hresp⟩ := shake_of_collect (hcleared ▸ hfed)
            have hcheck : h'.hasErrorInResponse = true := by
              rw [hasErrorInResponse, hresp]
            rw [shakeAll_cons hshake, hcheck, shakeAll_of_error hresp]
            constructor
            · rintro ⟨hrefused, hall⟩
              refine ⟨⟨hlast, errorsLast_of_forall hall, fun _ => hall⟩, fun _ => hrefused.symm, ?_⟩
              intro k' hmem _
              apply Handshake.isRefused_of_forall
              intro nd hnd
              apply hall nd (List.mem_flatMap_of_mem hmem hnd)
            · rintro ⟨⟨_, _, hall⟩, hrefused, _⟩
              exact ⟨(hrefused rfl).symm, hall rfl⟩
      · constructor
        · intro h
          exact absurd h (shakeAll_cons_throws (hcleared ▸ collect_not_errorsLast [] hlast))
        · intro h
          exact absurd h.1.1 hlast

/-- From a new handshaker on, no delivery throws and the check after each handshake tells whether
one of its replies is an error, exactly if no other node comes after an error in all replies
together, and a handshake with an error in a reply has a reply that is an error. -/
theorem handshake_outcomes_iff (ks : List Handshake) :
  ({} : Handshaker).shakeAll ks = .ok (ks.map Handshake.isRefused)
    ↔ ErrorsLast (ks.flatMap Handshake.nodes)
      ∧ ∀ k ∈ ks, hasErrorNode k.nodes = true → k.isRefused = true
  := by
  exact shakeAll_of_ok rfl

end Handshaker

/-- A handshake with the default configuration and one reply. -/
def Handshake.single (v : Value) : Handshake where
  config := {}
  replies := [v]
  replies_length := rfl

/-- A handshake that succeeds after one that was refused, and one with an error in its reply. -/
theorem handshake_outcomes_differ :
  let refused := Handshake.single (.simple .simpleError (ascii "ERR"))
  let accepted := Handshake.single (.simple .simpleString (ascii "OK"))
  let mixed := Handshake.single (.aggregate .array 1 [.simple .simpleError (ascii "ERR")])
  ({} : Handshaker).shakeAll [refused, accepted] = .error .systemError
    ∧ mixed.isRefused = false ∧ ({} : Handshaker).shakeAll [mixed] = .ok [true]
  := by
  exact ⟨rfl, rfl, rfl⟩

/-! ### The commands that are sent -/

/-- The arguments of `HELLO` that a configuration asks for: authentication if there are a user and
a password, and a name of the client if there is one. -/
def configuredArgs (cfg : ConnectionConfig) : List Bytes :=
  [ascii "3"]
    ++ (if cfg.username ≠ [] ∧ cfg.password ≠ [] then
          [ascii "AUTH", cfg.username, cfg.password] else [])
    ++ (if cfg.clientname ≠ [] then [ascii "SETNAME", cfg.clientname] else [])

/-- The command that selects a database, if it is not the first. -/
def selectCommands (cfg : ConnectionConfig) : List (List Bytes) :=
  match cfg.databaseIndex with
  | none => []
  | some i => if i ≠ 0 then [[ascii "SELECT", toText i]] else []

/-- The commands that a configuration asks for. -/
def configuredCommands (cfg : ConnectionConfig) : List (List Bytes) :=
  (ascii "HELLO" :: configuredArgs cfg) :: selectCommands cfg

/-- What should hold of the request of a handshake: it is read as the commands that the
configuration asks for, expects a response to each of them, and comes before other requests. -/
structure FollowsConfig (cfg : ConnectionConfig) (req : Request) : Prop where
  parsed : readMessages req.payload.length req.payload
    = some ((configuredCommands cfg).map commandNodes)
  expected : req.expectedResponses = (configuredCommands cfg).length
  priority : req.hasHelloPriority = true

/-- The calls that `push_hello` makes. -/
def helloCalls (cfg : ConnectionConfig) : List Call :=
  .push (ascii "HELLO") ((helloArgs cfg).map .bytes) ::
    match cfg.databaseIndex with
    | none => []
    | some i => if i ≠ 0 then [.push (ascii "SELECT") [.int i]] else []

theorem pushHello_eq (cfg : ConnectionConfig) (req : Request) :
  pushHello cfg req = (helloCalls cfg).foldl Request.call req
  := by
  rw [pushHello, helloCalls, Request.push]
  cases cfg.databaseIndex with
  | none => rfl
  | some i =>
      simp only
      split <;> rfl

theorem filterMap_helloCalls (cfg : ConnectionConfig) :
  (helloCalls cfg).filterMap Call.fields
    = (ascii "HELLO" :: helloArgs cfg) :: selectCommands cfg
  := by
  have htexts : (helloArgs cfg).map (Arg.text ∘ .bytes) = helloArgs cfg := by
    apply (List.map_congr_left fun _ _ => rfl).trans (List.map_id _)
  rw [helloCalls, selectCommands]
  cases cfg.databaseIndex with
  | none => simp [Call.fields, htexts]
  | some i =>
      simp only
      split <;> simp [Call.fields, htexts, Arg.text]

/-- A command is known by its nodes. -/
theorem commandNodes_injective : Function.Injective commandNodes := by
  intro fields fields' h
  have htail := (List.cons.inj h).2
  apply List.map_injective_iff.mpr _ htail
  intro a b hab
  exact congrArg Node.value hab

theorem length_selectCommands (cfg : ConnectionConfig) :
  (selectCommands cfg).countP (fun fields => fields.headD [] ∉ pushCommands)
    = (selectCommands cfg).length
  := by
  rw [selectCommands]
  cases cfg.databaseIndex with
  | none => rfl
  | some i =>
      simp only
      split <;> rfl

theorem pushHello_hasHelloPriority (cfg : ConnectionConfig) (req : Request) :
  (pushHello cfg req).hasHelloPriority = req.config.helloWithPriority
  := by
  rw [pushHello]
  cases cfg.databaseIndex with
  | none => rfl
  | some i =>
      simp only
      split <;> rfl

/-- The arguments are those that are asked for, unless there is a password and nothing else. -/
theorem helloArgs_eq_iff (cfg : ConnectionConfig) :
  helloArgs cfg = configuredArgs cfg
    ↔ ¬ (cfg.username = [] ∧ cfg.password ≠ [] ∧ cfg.clientname = [])
  := by
  rw [helloArgs, configuredArgs]
  by_cases hu : cfg.username = [] <;> by_cases hp : cfg.password = [] <;>
    by_cases hc : cfg.clientname = [] <;> simp [hu, hp, hc]

/-- The request of a handshake follows the configuration exactly if that has not a password without
a user and without a name of the client. -/
theorem followsConfig_iff (cfg : ConnectionConfig) (req : Request)
    (hpriority : req.config.helloWithPriority = true)
    (hlen : (pushHello cfg req.clear).payload.length < 2 ^ 64) :
  FollowsConfig cfg (pushHello cfg req.clear)
    ↔ ¬ (cfg.username = [] ∧ cfg.password ≠ [] ∧ cfg.clientname = [])
  := by
  obtain ⟨hpayload, _, hexpected⟩ := foldl_call (helloCalls cfg) req.clear
  rw [← pushHello_eq, filterMap_helloCalls] at hpayload hexpected
  have hparsed : readMessages (pushHello cfg req.clear).payload.length
        (pushHello cfg req.clear).payload
      = some (((ascii "HELLO" :: helloArgs cfg) :: selectCommands cfg).map commandNodes) := by
    rw [hpayload] at hlen ⊢
    apply readMessages_commands _ _ le_rfl hlen
  rw [← helloArgs_eq_iff]
  constructor
  · intro h
    have hsame := Option.some.inj (hparsed.symm.trans h.parsed)
    have hargs := commandNodes_injective (List.cons.inj hsame).1
    exact (List.cons.inj hargs).2
  · intro h
    refine ⟨?_, ?_, ?_⟩
    · rw [hparsed, h]
      rfl
    · rw [hexpected, List.countP_cons, length_selectCommands]
      exact Nat.zero_add _
    · rw [pushHello_hasHelloPriority]
      exact hpriority

/-- A user with a password, a name of the client and a database. -/
theorem followsConfig_auth :
  FollowsConfig ⟨ascii "u", ascii "p", ascii "c", some 3⟩
    (pushHello ⟨ascii "u", ascii "p", ascii "c", some 3⟩ (Request.clear {}))
  := by
  apply (followsConfig_iff _ {} rfl (by decide)).mpr
  decide

/-- Without a user and a name of the client, the password is sent with an empty name. -/
theorem followsConfig_fails :
  let cfg : ConnectionConfig := ⟨[], ascii "p", [], none⟩
  helloArgs cfg = [ascii "3", ascii "AUTH", [], ascii "p"]
    ∧ ¬ FollowsConfig cfg (pushHello cfg (Request.clear {}))
  := by
  intro cfg
  refine ⟨rfl, ?_⟩
  intro h
  have hread : readMessages (pushHello cfg (Request.clear {})).payload.length
      (pushHello cfg (Request.clear {})).payload
      = some [commandNodes (ascii "HELLO" :: helloArgs cfg)] := by
    decide +kernel
  have hsame := Option.some.inj (hread.symm.trans h.parsed)
  revert hsame
  decide

end Redis
