import NaturalMold.ResumeCommands

/-! # Session consents -/

namespace NaturalMold.Approvals

open Conversations (Uuid Time OrgContext Database PrivateScope Raised truthy)
open KeyedTables Fallible

/-- A row of `skill_builder_sessions`: its scope, its draft and its consents. -/
structure SkillBuilderSession where
  id : Uuid
  userId : Uuid
  orgId : Uuid
  tenantId : Uuid
  conversationId : Option Uuid
  sourceSkillId : Option Uuid := none
  finalizedSkillId : Option Uuid := none
  draftWorkspacePath : Option String := none
  toolConsents : Option (OrderedDict String Json) := none
  createdAt : Time
  updatedAt : Time

abbrev SessionTable := Table SkillBuilderSession.id

/-- What recording a consent reads besides its tables: the check of the actor, the agents
and skills in the actor's private scope, the profile of a draft, and the clock. -/
structure ConsentEnvironment where
  resolvePrivateActor : Except Raised Unit := .ok ()
  privateAgents : List Uuid
  privateSkills : List Uuid := []
  draftRequiresNetwork : String → Bool
  grantedAt : String
  updatedAt : Time

/-- `private_skill_builder_predicate`. -/
def PrivateSkillBuilder (env : ConsentEnvironment) (db : Database) (context : OrgContext)
    (session : SkillBuilderSession) : Prop :=
  (session.userId = context.userId ∧ session.orgId = context.orgId ∧
      session.tenantId = context.tenantId) ∧
    (session.conversationId = none ∨
      ∃ conversation ∈ db.conversations.rows, session.conversationId = some conversation.id ∧
        PrivateScope context conversation ∧
        ∀ agentId ∈ conversation.agentId, agentId ∈ env.privateAgents) ∧
    (∀ skillId ∈ session.sourceSkillId, skillId ∈ env.privateSkills) ∧
    ∀ skillId ∈ session.finalizedSkillId, skillId ∈ env.privateSkills

instance (env : ConsentEnvironment) (db : Database) (context : OrgContext)
    (session : SkillBuilderSession) : Decidable (PrivateSkillBuilder env db context session) :=
  inferInstanceAs (Decidable ((_ ∧ _ ∧ _) ∧ (_ ∨ ∃ conversation ∈ db.conversations.rows, _ ∧ _ ∧ _) ∧
    (∀ skillId ∈ session.sourceSkillId, _) ∧ ∀ skillId ∈ session.finalizedSkillId, _))

def InConversation (env : ConsentEnvironment) (db : Database) (context : OrgContext)
    (conversationId : Uuid) (session : SkillBuilderSession) : Prop :=
  session.conversationId = some conversationId ∧
    ∃ conversation ∈ db.conversations.rows, conversation.id = conversationId ∧
      PrivateScope context conversation ∧
      ∃ agentId ∈ conversation.agentId, agentId ∈ env.privateAgents

instance (env : ConsentEnvironment) (db : Database) (context : OrgContext)
    (conversationId : Uuid) (session : SkillBuilderSession) :
    Decidable (InConversation env db context conversationId session) :=
  inferInstanceAs (Decidable (_ ∧ ∃ conversation ∈ db.conversations.rows, _ ∧ _ ∧
    ∃ agentId ∈ conversation.agentId, _))

def CreatedLater (first second : SkillBuilderSession) : Prop :=
  second.createdAt ≤ first.createdAt

instance : DecidableRel CreatedLater := fun _ _ => inferInstanceAs (Decidable (_ ≤ _))

def loadConversationSession (env : ConsentEnvironment) (db : Database) (context : OrgContext)
    (conversationId : Uuid) (sessions : SessionTable) :
    Except Raised (Option SkillBuilderSession) := do
  env.resolvePrivateActor
  return firstInOrder CreatedLater (sessions.rows.filter fun session =>
    InConversation env db context conversationId session ∧
      PrivateSkillBuilder env db context session)

def loadMutationSession (env : ConsentEnvironment) (db : Database) (context : OrgContext)
    (sessionId : Uuid) (sessions : SessionTable) : Except Raised SkillBuilderSession := do
  env.resolvePrivateActor
  match sessions.rows.find? fun session =>
      session.id = sessionId ∧ PrivateSkillBuilder env db context session with
  | none => .error (.appError "SESSION_NOT_FOUND")
  | some session => .ok session

def sessionConsent (grantedAt : String) : Json :=
  .obj [("scope", .str "session"), ("granted_at", .str grantedAt)]

def SkillBuilderSession.consented (env : ConsentEnvironment) (toolNames : List String)
    (session : SkillBuilderSession) : SkillBuilderSession :=
  { session with
    toolConsents := some ((session.toolConsents.getD OrderedDict.empty).setAll toolNames
      (sessionConsent env.grantedAt))
    updatedAt := env.updatedAt }

def recordToolConsents (env : ConsentEnvironment) (db : Database) (context : OrgContext)
    (sessionId : Uuid) (toolNames : List String) (sessions : SessionTable) :
    Except Raised SessionTable := do
  let session ← loadMutationSession env db context sessionId sessions
  return sessions.save (session.consented env toolNames)

def skillDraftStoragePath (sessionId : Uuid) : String :=
  "skill-drafts/" ++ Conversations.uuidText sessionId

/-- A draft in a workspace lies where its session keeps it and needs no network. -/
def SkillBuilderSession.TakesConsent (env : ConsentEnvironment)
    (session : SkillBuilderSession) : Prop :=
  ∀ path ∈ truthy session.draftWorkspacePath,
    path = skillDraftStoragePath session.id ∧ ¬ env.draftRequiresNetwork path

instance (env : ConsentEnvironment) (session : SkillBuilderSession) :
    Decidable (session.TakesConsent env) :=
  inferInstanceAs (Decidable (∀ path ∈ truthy session.draftWorkspacePath, _ ∧ _))

/-- `apply_session_consent_decisions`: the tools whose consent was recorded. -/
def applySessionConsentDecisions (env : ConsentEnvironment) (db : Database)
    (context : OrgContext) (conversationId : Uuid) (resume : ResumePayload)
    (pending : List ThreadInterrupt) (sessions : SessionTable) :
    Except Raised (List String × SessionTable) :=
  if (requestedTools resume pending).isEmpty then .ok ([], sessions)
  else do
    match ← loadConversationSession env db context conversationId sessions with
    | none => return ([], sessions)
    | some session =>
        if ¬ session.TakesConsent env then return ([], sessions)
        else
          let toolNames := consentedNames resume pending
          let sessions ← recordToolConsents env db context session.id toolNames sessions
          return (toolNames, sessions)

section

variable {env : ConsentEnvironment} {db : Database} {context : OrgContext}
  {conversationId : Uuid} {resume : ResumePayload} {pending : List ThreadInterrupt}
  {sessions after : SessionTable} {session : SkillBuilderSession} {toolNames : List String}

def SkillBuilderSession.Consents (env : ConsentEnvironment) (toolNames : List String)
    (session : SkillBuilderSession) : Prop :=
  session.updatedAt = env.updatedAt ∧ ∃ consents ∈ session.toolConsents, ∀ name ∈ toolNames,
    consents.get? name = some (sessionConsent env.grantedAt)

theorem consented_eq_self_iff :
    session.consented env toolNames = session ↔ session.Consents env toolNames := by
  constructor
  · intro unchanged
    have consents := congrArg SkillBuilderSession.toolConsents unchanged
    refine ⟨(congrArg SkillBuilderSession.updatedAt unchanged).symm, _, consents.symm, ?_⟩
    intro name member
    rw [OrderedDict.get?_setAll, if_pos member]
  · rintro ⟨instant, consents, stored, all⟩
    have kept := OrderedDict.setAll_eq_self_iff.mpr all
    replace stored : session.toolConsents = some consents := stored
    obtain ⟨id, userId, orgId, tenantId, conversation, source, finalized, path, tools, created,
      updated⟩ := session
    obtain rfl : tools = some consents := stored
    obtain rfl : updated = env.updatedAt := instant
    simp only [SkillBuilderSession.consented, Option.getD_some, kept]

/-- The session that a consent is recorded in. -/
theorem loadConversationSession_eq_some
    (loaded : loadConversationSession env db context conversationId sessions =
      .ok (some session)) :
    env.resolvePrivateActor = .ok () ∧ session ∈ sessions.rows ∧
      InConversation env db context conversationId session ∧
      PrivateSkillBuilder env db context session := by
  simp only [loadConversationSession, bind_eq_ok] at loaded
  obtain ⟨_, actor, found⟩ := loaded
  have member := mem_of_firstInOrder CreatedLater (Except.ok.inj found)
  rw [List.mem_filter, decide_eq_true_eq] at member
  exact ⟨actor, member.1, member.2.1, member.2.2⟩

theorem recordToolConsents_eq_ok
    (loaded : loadConversationSession env db context conversationId sessions =
      .ok (some session)) :
    recordToolConsents env db context session.id toolNames sessions =
      .ok (sessions.save (session.consented env toolNames)) := by
  obtain ⟨actor, member, _, isPrivate⟩ := loadConversationSession_eq_some loaded
  have again : (sessions.rows.find? fun other =>
      other.id = session.id ∧ PrivateSkillBuilder env db context other) = some session := by
    cases found : sessions.rows.find? fun other =>
        other.id = session.id ∧ PrivateSkillBuilder env db context other with
    | none =>
        rw [List.find?_eq_none] at found
        exact absurd (decide_eq_true ⟨rfl, isPrivate⟩) (found session member)
    | some other =>
        have passes := List.find?_some found
        rw [decide_eq_true_eq] at passes
        rw [sessions.eq_of_key_eq (List.mem_of_find?_eq_some found) member passes.1]
  rw [recordToolConsents, loadMutationSession, actor, again]
  rfl

def KeepsConsents (env : ConsentEnvironment) (db : Database) (context : OrgContext)
    (conversationId : Uuid) (resume : ResumePayload) (pending : List ThreadInterrupt)
    (sessions : SessionTable) : Prop :=
  requestedTools resume pending ≠ [] → ∀ session,
    loadConversationSession env db context conversationId sessions = .ok (some session) →
      session.TakesConsent env → session.Consents env (consentedNames resume pending)

theorem applySessionConsentDecisions_isOk_iff :
    (∃ recorded, applySessionConsentDecisions env db context conversationId resume pending
      sessions = .ok recorded) ↔
      (requestedTools resume pending ≠ [] → env.resolvePrivateActor = .ok ()) := by
  unfold applySessionConsentDecisions
  by_cases none : requestedTools resume pending = []
  · simp [none]
  · rw [if_neg (by simpa using none)]
    constructor
    · rintro ⟨recorded, applied⟩ _
      obtain ⟨_, loaded, _⟩ := bind_eq_ok.mp applied
      simp only [loadConversationSession, bind_eq_ok] at loaded
      exact loaded.choose_spec.1
    · intro actor
      have resolved := actor none
      cases loaded : loadConversationSession env db context conversationId sessions with
      | error raised =>
          rw [loadConversationSession, resolved] at loaded
          cases loaded
      | ok found =>
          cases found with
          | none => exact ⟨_, rfl⟩
          | some session =>
              change ∃ recorded, (if ¬ session.TakesConsent env then _ else _) = _
              by_cases takes : session.TakesConsent env
              · rw [if_neg (not_not.mpr takes)]
                exact ⟨_, bind_eq_ok.mpr ⟨_, recordToolConsents_eq_ok loaded, rfl⟩⟩
              · rw [if_pos takes]
                exact ⟨_, rfl⟩

theorem applySessionConsentDecisions_keeps_iff
    (applied : applySessionConsentDecisions env db context conversationId resume pending
      sessions = .ok (toolNames, after)) :
    after = sessions ↔ KeepsConsents env db context conversationId resume pending sessions := by
  unfold applySessionConsentDecisions at applied
  by_cases none : requestedTools resume pending = []
  · rw [if_pos (by simpa using none)] at applied
    obtain ⟨_, rfl⟩ := Prod.mk.inj (Except.ok.inj applied)
    exact iff_of_true rfl fun asked => absurd none asked
  rw [if_neg (by simpa using none)] at applied
  obtain ⟨found, loaded, applied⟩ := bind_eq_ok.mp applied
  cases found with
  | none =>
      obtain ⟨_, rfl⟩ := Prod.mk.inj (Except.ok.inj applied)
      refine iff_of_true rfl fun _ session other => ?_
      rw [loaded] at other
      cases other
  | some session =>
      dsimp only at applied
      have only : KeepsConsents env db context conversationId resume pending sessions ↔
          (session.TakesConsent env →
            session.Consents env (consentedNames resume pending)) := by
        constructor
        · intro keeps
          exact keeps none session loaded
        · rintro keeps _ other found
          rw [loaded] at found
          obtain rfl := Option.some.inj (Except.ok.inj found)
          exact keeps
      rw [only]
      by_cases takes : session.TakesConsent env
      · rw [if_neg (not_not.mpr takes), recordToolConsents_eq_ok loaded] at applied
        obtain ⟨_, rfl⟩ := Prod.mk.inj (Except.ok.inj applied)
        have member := (loadConversationSession_eq_some loaded).2.1
        have sameId :
            session.id = (session.consented env (consentedNames resume pending)).id := rfl
        rw [Table.save_eq_self_iff member sameId, consented_eq_self_iff]
        exact ⟨fun consents _ => consents, fun consents => consents takes⟩
      · rw [if_pos takes] at applied
        obtain ⟨_, rfl⟩ := Prod.mk.inj (Except.ok.inj applied)
        exact iff_of_true rfl fun accepted => absurd accepted takes

end

end NaturalMold.Approvals
