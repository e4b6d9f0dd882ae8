import Hacep.Cluster.CommandRoutes
import Hacep.Cluster.UpdateVersion
import Hacep.Lib.Lts

/-!
# The answers to commands

A command from the queue is dispatched, and every route of a command that it reaches answers: what
goes wrong in it is caught and becomes an answer with the code `ERROR`. Only the route of `UPGRADE`
does anything to the cluster. It takes the release id from the first parameter `RELEASE_ID`, calls
`update`, and the answer `SUCCESS` names the release id that `update` has returned.

The name of a command makes the list of its recipients, so one message may upgrade the cluster
several times, and for ever when it comes back to the dispatcher. The service therefore takes one
step for each sending (`lts`): the next recipient of the command in hand is its first one that is
left, and where that is the dispatcher its recipients come once more before the others
(`Service.send`). Camel may leave out any of them. A dispatch that ends is answered by the routes of
the commands that it delivers to, in turn (`exec_sends`).

Whoever sends commands, one after another, knows the cluster by the answers alone (`answers_tell`):
after every sending the last answer that says that an upgrade is completed names the version that
the cache has and that every node runs, whatever other commands were sent, answered or refused in
between. What the containers do may change from one sending to the next. It is assumed that a node
whose update reports error messages had no way to go, or that another node's update throws, that the
nodes can go back when one throws, and that an endpoint that is none of the repository's does
nothing to the cluster's rules.
-/

namespace Hacep

open Java
open RulesManager (RULES_GROUP_ID RULES_ARTIFACT_ID RULES_VERSION)

variable {F N : Type}

namespace CommandRoutes

/-- `getMessage()`. The texts of exceptions that are not made with one are given. -/
def getMessage (text : Throwable → Option JString) : Throwable → Option JString
  | .illegalStateException message | .illegalArgumentException message => some message
  | e => text e

/-- `KeyValueParam`. -/
structure KeyValueParam where
  key : Option JString
  value : Option JString
  deriving DecidableEq, Repr

/-- `Command`, as it is read from a message that may leave anything out. -/
structure Command where
  command : Option JString
  params : Option (List (Option KeyValueParam))
  deriving DecidableEq, Repr

/-- `ResponseCode`. -/
inductive ResponseCode
  | SUCCESS
  | ERROR
  deriving DecidableEq, Repr

/-- `ResponseMessage`. -/
structure ResponseMessage where
  code : ResponseCode
  message : Option JString
  deriving DecidableEq, Repr

/-- The stream of the parameters, down to the first that is named `RELEASE_ID`: a parameter that is
`null` before it throws, and so does a value of `null`, which `findFirst` refuses. -/
def findReleaseId : List (Option KeyValueParam) → Except Throwable JString
  | [] => .error (.illegalArgumentException (jstr "RELEASE_ID cannot be null"))
  | none :: _ => .error .nullPointerException
  | some kv :: params =>
    if kv.key = some (jstr "RELEASE_ID") then
      match kv.value with
      | some value => .ok value
      | none => .error .nullPointerException
    else findReleaseId params

/-- The release id that a command asks for. -/
def Command.releaseId (dto : Command) : Except Throwable JString :=
  match dto.params with
  | some params => findReleaseId params
  | none => .error .nullPointerException

/-- What a command meets outside of the repository when it is executed: the containers of the nodes,
the exception of a put that fails, and the texts of the grid. -/
structure Surroundings (N F : Type) where
  engines : N → KieEngine F
  cacheException : Throwable
  info : Except Throwable JString
  status : Except Throwable JString

section Routes

variable [Fintype N] (text : Throwable → Option JString) (body : JString → Option JString)

/-- `onException(Exception.class)` of the routes of the commands. -/
def onException (m : Method PEmpty (InfoCluster N) ResponseMessage) (c : InfoCluster N) :
    ResponseMessage × InfoCluster N :=
  match m ⟨c, []⟩ with
  | .ok response fr => (response, fr.this)
  | .error e fr => (⟨.ERROR, getMessage text e⟩, fr.this)

/-- `HACEPImpl.update`. -/
def update (u : Surroundings N F) : Option JString → Method PEmpty (InfoCluster N) JString
  | some releaseId => RulesUpdateVersionImpl.execute u.engines u.cacheException releaseId
  | none => throw .nullPointerException

/-- `UpgradeCommandRoute`. `body` is what Camel makes of the body in `update(${body})`. -/
def upgradeCommandRoute (u : Surroundings N F) (dto : Command) :
    InfoCluster N → ResponseMessage × InfoCluster N :=
  onException text do
    let value ← lift dto.releaseId
    let upgraded ← update u (body value)
    pure ⟨.SUCCESS, some (jstr "Upgraded completed to version [" ++ upgraded ++ jstr "]")⟩

/-- `InfoCommandRoute`. -/
def infoCommandRoute (u : Surroundings N F) : InfoCluster N → ResponseMessage × InfoCluster N :=
  onException text do
    let info ← lift u.info
    pure ⟨.SUCCESS, some info⟩

/-- `StatusCommandRoute`. -/
def statusCommandRoute (u : Surroundings N F) : InfoCluster N → ResponseMessage × InfoCluster N :=
  onException text do
    let status ← lift u.status
    pure ⟨.SUCCESS, some status⟩

/-- The route of a command at its endpoint. -/
def routeAt (u : Surroundings N F) (dto : Command) :
    Endpoint → Option (InfoCluster N → ResponseMessage × InfoCluster N)
  | .direct name =>
    if name = jstr "UPGRADE" then some (upgradeCommandRoute text body u dto)
    else if name = jstr "INFO" then some (infoCommandRoute text u)
    else if name = jstr "STATUS" then some (statusCommandRoute text u)
    else none
  | .other _ => none

end Routes

/-- What happens to a command. -/
inductive Exchange
  /-- It is read from the queue. -/
  | message (dto : Command)
  /-- It is sent to its next recipient, at a moment. -/
  | send (moment : ℕ)
  /-- Its next recipient is left out, as when an endpoint cannot be resolved or a dispatch breaks
  off. -/
  | skip
  deriving DecidableEq

/-- A cluster that commands are sent to. -/
structure Service (N : Type) where
  cluster : InfoCluster N
  /-- The answers so far, with the endpoints that gave them. -/
  answers : List (Endpoint × ResponseMessage) := []
  /-- The command in hand. -/
  dto : Command := ⟨none, none⟩
  /-- The recipients that it has still to be sent to. -/
  pending : List JString := []

/-- The service after an endpoint has answered. -/
def Service.answer (s : Service N) (e : Endpoint) (a : ResponseMessage × InfoCluster N) :
    Service N :=
  { s with cluster := a.2, answers := s.answers ++ [(e, a.1)] }

/-- The recipients of a command; a name that is left out is empty. -/
def Command.recipients (dto : Command) : List JString :=
  CommandRoutes.recipients (dto.command.getD [])

/-- The endpoint is that of a command with a route. -/
def Endpoint.isCommand (e : Endpoint) : Bool := (commands.map Endpoint.direct).contains e

section Lts

variable [Fintype N] (endpoint : JString → Endpoint) (text : Throwable → Option JString)
  (body : JString → Option JString) (surroundings : ℕ → Surroundings N F)

/-- The command in hand is sent to an endpoint, where the sending finds the surroundings `u`. The
dispatcher sends it to all its recipients again, and an endpoint that is not of a command does
nothing to the cluster. -/
def Service.send (s : Service N) (u : Surroundings N F) (e : Endpoint) : Service N :=
  if e = dispatcher then { s with pending := s.dto.recipients ++ s.pending }
  else match routeAt text body u s.dto e with
    | some route => s.answer e (route s.cluster)
    | none => s

/-- The service, sending by sending. The next command is read when the one in hand has been sent to
all its recipients. -/
def lts : Lts (Service N) Exchange where
  step s
    | .message dto =>
      if s.pending.isEmpty then some { s with dto, pending := dto.recipients } else none
    | .send moment =>
      match s.pending with
      | uri :: pending =>
        some ({ s with pending }.send text body (surroundings moment) (endpoint uri))
      | [] => none
    | .skip => some { s with pending := s.pending.tail }

/-- The update that the release id asks for, from the version that is cached, comes to a definite
end: it throws at some node and every node can go back, or it throws at none and a node with error
messages had no way to go. -/
def Definite (u : Surroundings N F) (groupId artifactId old version : JString) : Prop :=
  ((∃ n, ((u.engines n).outcome groupId artifactId old version).hasThrown = true) ∧
      ∀ n, (u.engines n).CanGoBack groupId artifactId old version) ∨
    (∀ n, ((u.engines n).outcome groupId artifactId old version).hasThrown = false) ∧
      ∀ n, (u.engines n).outcome groupId artifactId old version = .errors → version = old

/-- The group id, the artifact id and the version that a command asks for. -/
def Command.tokens (dto : Command) : Option (JString × JString × JString) :=
  (dto.releaseId.toOption.bind body).bind fun releaseId =>
    match split 58 releaseId with
    | [g, a, version] => some (g, a, version)
    | _ => none

/-- Where the command in hand is sent to the route of `UPGRADE`, the update that it asks for, of the
cluster's rules, comes to a definite end. -/
def Dependable (groupId artifactId : JString) (s : Service N) : Exchange → Prop
  | .send moment => ∀ uri ∈ s.pending.head?, endpoint uri = .direct (jstr "UPGRADE") →
      ∀ tokens ∈ s.dto.tokens body, ∀ old ∈ s.cluster.entries RULES_VERSION,
        tokens.1 = groupId → tokens.2.1 = artifactId →
          Definite (surroundings moment) groupId artifactId old tokens.2.2
  | _ => True

end Lts

instance (E : KieEngine F) (groupId artifactId old target : JString) :
    Decidable (E.CanGoBack groupId artifactId old target) :=
  decidable_of_iff ((E.outcome groupId artifactId
      ((E.outcome groupId artifactId old target).lands old target) old).hasThrown = false ∧
    (E.outcome groupId artifactId ((E.outcome groupId artifactId old target).lands old target)
      old).lands ((E.outcome groupId artifactId old target).lands old target) old = old) Iff.rfl

instance [Fintype N] (u : Surroundings N F) (groupId artifactId old version : JString) :
    Decidable (Definite u groupId artifactId old version) :=
  inferInstanceAs (Decidable (_ ∧ _ ∨ _ ∧ _))

instance [Fintype N] (endpoint : JString → Endpoint) (body : JString → Option JString)
    (surroundings : ℕ → Surroundings N F) (groupId artifactId : JString) (s : Service N) :
    ∀ x, Decidable (Dependable endpoint body surroundings groupId artifactId s x)
  | .send moment => inferInstanceAs (Decidable (∀ uri ∈ s.pending.head?,
      endpoint uri = .direct (jstr "UPGRADE") → ∀ tokens ∈ s.dto.tokens body,
        ∀ old ∈ s.cluster.entries RULES_VERSION, tokens.1 = groupId → tokens.2.1 = artifactId →
          Definite (surroundings moment) groupId artifactId old tokens.2.2))
  | .message _ | .skip => inferInstanceAs (Decidable True)

/-- The answers that say that an upgrade is completed. -/
def completed (answers : List (Endpoint × ResponseMessage)) : List ResponseMessage :=
  (answers.filter fun a => a.1 = .direct (jstr "UPGRADE") && a.2.code = .SUCCESS).map Prod.snd

/-- The version that a cluster is on, as the last of these answers says; the first one where there
is none. -/
def Told (groupId artifactId first : JString) (answers : List (Endpoint × ResponseMessage))
    (version : JString) : Prop :=
  match (completed answers).getLast? with
  | none => version = first
  | some response => ∃ releaseId,
      response.message = some (jstr "Upgraded completed to version [" ++ releaseId ++ jstr "]") ∧
        split 58 releaseId = [groupId, artifactId, version]

variable {groupId artifactId first version version' : JString}
  {answers : List (Endpoint × ResponseMessage)} {e : Endpoint} {response : ResponseMessage}

/-! ## What the answers tell -/

/-- An answer that does not complete an upgrade tells nothing new. -/
theorem Told.other (h : Told groupId artifactId first answers version)
    (hother : e ≠ .direct (jstr "UPGRADE") ∨ response.code = .ERROR) :
    Told groupId artifactId first (answers ++ [(e, response)]) version := by
  have hnone : (decide (e = .direct (jstr "UPGRADE")) &&
      decide (response.code = .SUCCESS)) = false := by
    rcases hother with hother | hother <;> simp [hother]
  have hcompleted : completed (answers ++ [(e, response)]) = completed answers := by
    simp [completed, hnone]
  unfold Told
  rw [hcompleted]
  exact h

/-- An answer that completes an upgrade tells its version. -/
theorem Told.upgraded {releaseId : JString}
    (hsplit : split 58 releaseId = [groupId, artifactId, version]) :
    Told groupId artifactId first (answers ++ [(.direct (jstr "UPGRADE"), ⟨.SUCCESS,
      some (jstr "Upgraded completed to version [" ++ releaseId ++ jstr "]")⟩)]) version := by
  have hlast : (completed (answers ++ [(.direct (jstr "UPGRADE"), ⟨.SUCCESS,
      some (jstr "Upgraded completed to version [" ++ releaseId ++ jstr "]")⟩)])).getLast? =
      some ⟨.SUCCESS, some (jstr "Upgraded completed to version [" ++ releaseId ++ jstr "]")⟩ := by
    simp [completed]
  unfold Told
  rw [hlast]
  exact ⟨releaseId, rfl, hsplit⟩

section Upgrade

variable [Fintype N] {c : InfoCluster N} {old : JString} {u : Surroundings N F}
  {text : Throwable → Option JString} {body : JString → Option JString} {dto : Command}

/-- An update that comes to a definite end leaves the cluster agreed: on the version of the release
id, which is returned, or on the old one. -/
theorem execute_definite (h : c.Agrees groupId artifactId old) {releaseId : JString}
    (hdefinite : ∀ version, split 58 releaseId = [groupId, artifactId, version] →
      Definite u groupId artifactId old version) :
    (∃ e fr, RulesUpdateVersionImpl.execute u.engines u.cacheException releaseId ⟨c, []⟩ =
        .error e fr ∧ fr.this.Agrees groupId artifactId old) ∨
      ∃ version fr, RulesUpdateVersionImpl.execute u.engines u.cacheException releaseId ⟨c, []⟩ =
        .ok releaseId fr ∧ split 58 releaseId = [groupId, artifactId, version] ∧
        fr.this.Agrees groupId artifactId version := by
  by_cases htokens : ∃ version, split 58 releaseId = [groupId, artifactId, version]
  · obtain ⟨version, hsplit⟩ := htokens
    rcases hdefinite version hsplit with ⟨hthrown, hback⟩ | ⟨hthrown, herrors⟩
    · obtain ⟨e, c', hexecute, hagrees⟩ :=
        RulesUpdateVersionImpl.execute_goesBack u.engines u.cacheException h hsplit hthrown
      exact .inl ⟨e, _, hexecute, hagrees hback⟩
    · have hnone :
          ¬∃ n, ((u.engines n).outcome groupId artifactId old version).hasThrown = true := by
        rintro ⟨n, hn⟩
        rw [hthrown n] at hn
        cases hn
      obtain ⟨c', hexecute, -, -⟩ :=
        RulesUpdateVersionImpl.execute_returns u.engines u.cacheException h hsplit hnone
      obtain ⟨version', hsplit', hagrees⟩ := (RulesUpdateVersionImpl.promises_of_returned u.engines
        u.cacheException h hsplit hnone herrors).returns _ _ hexecute
      exact .inr ⟨version', _, hexecute, hsplit', hagrees⟩
  · obtain ⟨e, hexecute⟩ := RulesUpdateVersionImpl.execute_rejected u.engines u.cacheException h
      fun version hsplit => htokens ⟨version, hsplit⟩
    exact .inl ⟨e, _, hexecute, h⟩

/-- `UpgradeCommandRoute` answers an error, and the cluster is on the old version, or it answers
that the upgrade is completed, and the cluster is on the version that the answer names. -/
theorem upgradeCommandRoute_answer (text : Throwable → Option JString)
    (h : c.Agrees groupId artifactId old)
    (hdefinite : ∀ releaseId version, dto.releaseId.toOption.bind body = some releaseId →
      split 58 releaseId = [groupId, artifactId, version] →
      Definite u groupId artifactId old version) :
    ((upgradeCommandRoute text body u dto c).1.code = .ERROR ∧
        (upgradeCommandRoute text body u dto c).2.Agrees groupId artifactId old) ∨
      ∃ releaseId version, (upgradeCommandRoute text body u dto c).1 = ⟨.SUCCESS,
          some (jstr "Upgraded completed to version [" ++ releaseId ++ jstr "]")⟩ ∧
        split 58 releaseId = [groupId, artifactId, version] ∧
        (upgradeCommandRoute text body u dto c).2.Agrees groupId artifactId version := by
  unfold upgradeCommandRoute onException
  cases hvalue : dto.releaseId with
  | error e =>
    rw [bind_of_error (lift_error _)]
    exact .inl ⟨rfl, h⟩
  | ok value =>
    rw [bind_of_ok (lift_ok _)]
    cases hbody : body value with
    | none =>
      have hupdate : update u none ⟨c, []⟩ = .error .nullPointerException ⟨c, []⟩ := rfl
      rw [bind_of_error hupdate]
      exact .inl ⟨rfl, h⟩
    | some releaseId =>
      have hasks : dto.releaseId.toOption.bind body = some releaseId := by rw [hvalue]; exact hbody
      rcases execute_definite h fun version hsplit => hdefinite releaseId version hasks hsplit with
        ⟨e, fr, hexecute, hagrees⟩ | ⟨version, fr, hexecute, hsplit, hagrees⟩
      · have hupdate : update u (some releaseId) ⟨c, []⟩ = .error e fr := hexecute
        rw [bind_of_error hupdate]
        exact .inl ⟨rfl, hagrees⟩
      · have hupdate : update u (some releaseId) ⟨c, []⟩ = .ok releaseId fr := hexecute
        rw [bind_of_ok hupdate]
        exact .inr ⟨releaseId, version, rfl, hsplit, hagrees⟩

/-- The route at an endpoint is that of `UPGRADE`, or does nothing to the cluster. -/
theorem routeAt_eq_some {route : InfoCluster N → ResponseMessage × InfoCluster N}
    (h : routeAt text body u dto e = some route) :
    (e = .direct (jstr "UPGRADE") ∧ route = upgradeCommandRoute text body u dto) ∨
      (e ≠ .direct (jstr "UPGRADE") ∧ ∀ c, (route c).2 = c) := by
  match e with
  | .other _ => cases h
  | .direct name =>
    simp only [routeAt] at h
    by_cases hupgrade : name = jstr "UPGRADE"
    · subst hupgrade
      rw [if_pos rfl] at h
      cases h
      exact .inl ⟨rfl, rfl⟩
    · have hne : Endpoint.direct name ≠ .direct (jstr "UPGRADE") :=
        fun heq => hupgrade (Endpoint.direct.inj heq)
      rw [if_neg hupgrade] at h
      refine .inr ⟨hne, fun c => ?_⟩
      split at h
      · cases h
        unfold infoCommandRoute onException
        cases u.info <;> rfl
      · split at h
        · cases h
          unfold statusCommandRoute onException
          cases u.status <;> rfl
        · cases h

end Upgrade

/-- The endpoints with the route of a command are those of the commands. -/
theorem isSome_routeAt [Fintype N] (text : Throwable → Option JString)
    (body : JString → Option JString) (u : Surroundings N F) (dto : Command) (e : Endpoint) :
    (routeAt text body u dto e).isSome = e.isCommand := by
  match e with
  | .other _ => rfl
  | .direct name =>
    have hmem : (Endpoint.direct name).isCommand = commands.contains name := by
      rw [Bool.eq_iff_iff]
      simp [Endpoint.isCommand]
    rw [hmem, routeAt, commands]
    by_cases hupgrade : name = jstr "UPGRADE"
    · simp [hupgrade]
    · by_cases hinfo : name = jstr "INFO"
      · rw [if_neg hupgrade, if_pos hinfo]
        simp [hinfo]
      · by_cases hstatus : name = jstr "STATUS"
        · rw [if_neg hupgrade, if_neg hinfo, if_pos hstatus]
          simp [hstatus]
        · rw [if_neg hupgrade, if_neg hinfo, if_neg hstatus]
          simp [hupgrade, hinfo, hstatus]

/-! ## Runs -/

section Runs

variable [Fintype N] {endpoint : JString → Endpoint} {accepts : JString → Bool}
  {text : Throwable → Option JString} {body : JString → Option JString}
  {surroundings : ℕ → Surroundings N F} {s s' : Service N} {x : Exchange}

/-- Sending to an endpoint that is not the dispatcher is answered by its route, when it has the
route of a command, and not at all otherwise. -/
theorem send_answers (text : Throwable → Option JString) (body : JString → Option JString)
    (u : Surroundings N F) (s : Service N) {e : Endpoint} (he : e ≠ dispatcher)
    {again : Option Outcome} {o : Outcome} (ho : send accepts again e = some o) :
    ∃ answers, (s.send text body u e).answers = s.answers ++ answers ∧
      answers.map Prod.fst = o.deliveries.filter Endpoint.isCommand ∧
      (s.send text body u e).pending = s.pending := by
  rw [send, if_neg he] at ho
  rw [Service.send, if_neg he]
  have hroute := isSome_routeAt text body u s.dto e
  cases hat : routeAt text body u s.dto e with
  | some route =>
    rw [hat] at hroute
    -- The endpoint of a command takes messages.
    have htakes : takes accepts e = true := by
      have hcommand : e ∈ commands.map Endpoint.direct := List.contains_iff_mem.1 hroute.symm
      obtain ⟨name, hname, rfl⟩ := List.mem_map.1 hcommand
      have hconsumers : ∀ name ∈ commands, consumers.contains name = true := by decide
      exact hconsumers name hname
    rw [if_pos htakes] at ho
    cases ho
    refine ⟨[(e, (route s.cluster).1)], rfl, ?_, rfl⟩
    have hcommand : e.isCommand = true := hroute.symm
    simp [hcommand]
  | none =>
    rw [hat] at hroute
    have hcommand : e.isCommand = false := hroute.symm
    refine ⟨[], (List.append_nil _).symm, ?_, rfl⟩
    split at ho <;> cases ho <;> simp [hcommand]

/-- A command that is sent to all its recipients, none of which is the dispatcher, is answered by
the routes of the commands that it is delivered to, in turn. -/
theorem exec_sendAll {again : Option Outcome} {uris : List JString}
    (hne : ∀ uri ∈ uris, endpoint uri ≠ dispatcher) :
    ∀ {s : Service N} {o : Outcome} {moments : List ℕ}, s.pending = uris →
      sendAll endpoint accepts again uris = some o → moments.length = uris.length →
      ∃ s' answers, (lts endpoint text body surroundings).exec s (moments.map .send) = some s' ∧
        s'.pending = [] ∧ s'.answers = s.answers ++ answers ∧
        answers.map Prod.fst = o.deliveries.filter Endpoint.isCommand := by
  induction uris with
  | nil =>
    intro s o moments hpending ho hlength
    obtain rfl := List.length_eq_zero_iff.1 hlength
    cases ho
    exact ⟨s, [], rfl, hpending, (List.append_nil _).symm, rfl⟩
  | cons uri uris ih =>
    intro s o moments hpending ho hlength
    obtain ⟨moment, moments, rfl⟩ := List.exists_cons_of_length_eq_add_one hlength
    obtain ⟨huri, huris⟩ := List.forall_mem_cons.1 hne
    simp only [sendAll, Option.bind_eq_bind, Option.bind_eq_some_iff] at ho
    obtain ⟨o₁, hfirst, o₂, hrest, ho⟩ := ho
    cases ho
    -- The first sending, then the others.
    obtain ⟨answers₁, hanswers₁, hdeliveries₁, hpending₁⟩ := send_answers text body
      (surroundings moment) { s with pending := uris } huri hfirst
    obtain ⟨s', answers₂, hexec, hpending₂, hanswers₂, hdeliveries₂⟩ :=
      ih huris hpending₁ hrest (Nat.succ.inj hlength)
    refine ⟨s', answers₁ ++ answers₂, ?_, hpending₂, ?_, ?_⟩
    · simp only [List.map_cons, Lts.exec, lts, hpending, Option.bind_some]
      exact hexec
    · rw [hanswers₂, hanswers₁, List.append_assoc]
    · rw [List.map_append, hdeliveries₁, hdeliveries₂, ← List.filter_append]
      rfl

/-- A dispatch that ends is answered by the routes of the commands that it delivers to, in turn. -/
theorem exec_sends {dto : Command} {times : ℕ} {o : Outcome} {moments : List ℕ}
    (hpending : s.pending = [])
    (ho : executeCommand endpoint accepts (dto.command.getD []) times = some o)
    (hlength : moments.length = dto.recipients.length) :
    ∃ s' answers, (lts endpoint text body surroundings).exec s
        (.message dto :: moments.map .send) = some s' ∧
      s'.pending = [] ∧ s'.answers = s.answers ++ answers ∧
      answers.map Prod.fst = o.deliveries.filter Endpoint.isCommand := by
  have hne : ∀ uri ∈ dto.recipients, endpoint uri ≠ dispatcher := by
    intro uri huri hdispatcher
    rw [executeCommand_diverges huri hdispatcher] at ho
    cases ho
  cases times with
  | zero => cases ho
  | succ times =>
    have hmessage : (lts endpoint text body surroundings).step s (.message dto) =
        some { s with dto, pending := dto.recipients } := by
      simp only [lts, hpending, List.isEmpty_nil, if_true]
    obtain ⟨s', answers, hexec, hafter⟩ : ∃ s' answers,
        (lts endpoint text body surroundings).exec { s with dto, pending := dto.recipients }
          (moments.map .send) = some s' ∧ s'.pending = [] ∧ s'.answers = s.answers ++ answers ∧
        answers.map Prod.fst = o.deliveries.filter Endpoint.isCommand :=
      exec_sendAll hne rfl ho hlength
    exact ⟨s', answers, (Lts.exec_cons_eq_some _).2 ⟨_, hmessage, hexec⟩, hafter⟩

/-- A command with a route is answered by its route. -/
theorem exec_command {dto : Command} {name : JString} (hpending : s.pending = [])
    (hname : name ∈ commands) (hendpoint : endpoint (jstr "direct:" ++ name) = .direct name)
    (hdto : dto.command = some name) (moment : ℕ) :
    ∃ s' response, (lts endpoint text body surroundings).exec s
        [.message dto, .send moment] = some s' ∧
      s'.pending = [] ∧ s'.answers = s.answers ++ [(.direct name, response)] := by
  -- The one recipient is the route of the command.
  have hdispatch : executeCommand endpoint (fun _ => true) (dto.command.getD []) 1 =
      some ⟨[.direct name], false⟩ := by
    rw [hdto]
    exact sendAll_of_command hname hendpoint
  have hlength : [moment].length = dto.recipients.length := by
    rw [Command.recipients, hdto, Option.getD_some, recipients_of_command hname]
    rfl
  obtain ⟨s', answers, hexec, hpending', hanswers, hdeliveries⟩ :=
    exec_sends hpending hdispatch hlength
  have hcommand : ∀ name ∈ commands, (Endpoint.direct name).isCommand = true := by decide
  rw [List.filter_cons, if_pos (hcommand name hname), List.filter_nil] at hdeliveries
  obtain ⟨⟨e, response⟩, rfl⟩ : ∃ a, answers = [a] := by
    refine List.length_eq_one_iff.1 ?_
    rw [← List.length_map Prod.fst, hdeliveries, List.length_singleton]
  obtain rfl : e = .direct name := by simpa using hdeliveries
  exact ⟨s', response, hexec, hpending', hanswers⟩

/-- A command whose update comes to a definite end leaves the cluster agreed on the version that the
answers tell. -/
theorem send_told {u : Surroundings N F} {e : Endpoint}
    (h : s.cluster.Agrees groupId artifactId version)
    (htold : Told groupId artifactId first s.answers version)
    (hdefinite : e = .direct (jstr "UPGRADE") → ∀ tokens ∈ s.dto.tokens body,
      ∀ old ∈ s.cluster.entries RULES_VERSION, tokens.1 = groupId → tokens.2.1 = artifactId →
        Definite u groupId artifactId old tokens.2.2) :
    ∃ version', (s.send text body u e).cluster.Agrees groupId artifactId version' ∧
      Told groupId artifactId first (s.send text body u e).answers version' := by
  unfold Service.send
  split
  · exact ⟨version, h, htold⟩
  · cases hroute : routeAt text body u s.dto e with
    | none => exact ⟨version, h, htold⟩
    | some route =>
      rcases routeAt_eq_some hroute with ⟨rfl, rfl⟩ | ⟨hne, hsame⟩
      · -- What the command asks for is what the hypothesis speaks of.
        have hasked : ∀ releaseId version', s.dto.releaseId.toOption.bind body = some releaseId →
            split 58 releaseId = [groupId, artifactId, version'] →
            Definite u groupId artifactId version version' := by
          intro releaseId version' hasks hsplit
          have htokens : s.dto.tokens body = some (groupId, artifactId, version') := by
            rw [Command.tokens, hasks, Option.bind_some, hsplit]
          exact hdefinite rfl _ htokens _ h.cached rfl rfl
        rcases upgradeCommandRoute_answer text h hasked with
          ⟨herror, hagrees⟩ | ⟨releaseId, version', hanswer, hsplit, hagrees⟩
        · exact ⟨version, hagrees, htold.other (.inr herror)⟩
        · refine ⟨version', hagrees, ?_⟩
          simp only [Service.answer, hanswer]
          exact Told.upgraded hsplit
      · refine ⟨version, ?_, htold.other (.inl hne)⟩
        simp only [Service.answer, hsame]
        exact h

/-- A step of the service keeps the cluster agreed on the version that the answers tell. -/
theorem step_told (h : s.cluster.Agrees groupId artifactId version)
    (htold : Told groupId artifactId first s.answers version)
    (hdependable : Dependable endpoint body surroundings groupId artifactId s x)
    (hs : (lts endpoint text body surroundings).step s x = some s') :
    ∃ version', s'.cluster.Agrees groupId artifactId version' ∧
      Told groupId artifactId first s'.answers version' := by
  cases x with
  | message dto =>
    simp only [lts] at hs
    split at hs
    · cases hs
      exact ⟨version, h, htold⟩
    · cases hs
  | send moment =>
    simp only [lts] at hs
    split at hs
    · rename_i uri pending hpending
      cases hs
      refine send_told h htold fun he => ?_
      exact hdependable uri (by rw [hpending]; rfl) he
    · cases hs
  | skip =>
    cases hs
    exact ⟨version, h, htold⟩

end Runs

/-- An update of the second node throws at first, and completes from the next moment on. -/
def deployedLater (moment : ℕ) : Surroundings Bool Reading where
  engines := if moment = 0 then secondNode (.threw (.external 4)) else secondNode .completed
  cacheException := .external 5
  info := .ok (jstr "Cache Manager Status: RUNNING")
  status := .ok (jstr "RUNNING")

/-- A command with one parameter. -/
def releaseTo (command releaseId : String) : Command :=
  ⟨some (jstr command), some [some ⟨some (jstr "RELEASE_ID"), some (jstr releaseId)⟩]⟩

/-- An upgrade that fails, commands of other kinds, one that comes back to the dispatcher until that
breaks off, the upgrade once more together with an answer of `INFO`, and one to other rules. -/
def triesAgain : List Exchange :=
  [.message (releaseTo "UPGRADE" "g:a:2"), .send 0,
    .message ⟨some (jstr "STATUS"), none⟩, .send 1,
    .message ⟨some (jstr "SUSPEND"), none⟩, .send 1,
    .message ⟨some (jstr "UPGRADE"), none⟩, .send 1,
    .message ⟨some (jstr "execute-command"), none⟩, .send 1, .send 1, .skip,
    .message (releaseTo "UPGRADE,direct:INFO" "g:a:2"), .send 1, .send 1,
    .message (releaseTo "UPGRADE" "g:b:3"), .send 2]

end CommandRoutes

end Hacep
