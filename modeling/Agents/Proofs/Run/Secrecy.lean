import Agents.Proofs.Json.Ordered
import Agents.Proofs.Run.Course
import Agents.Proofs.Template.Rendering

/-! # What the INPUT of a task shows

The INPUT of a task shows the inputs without those that are declared secret, and the prompt of an
agent that asks a model. A decision makes its prompt from the inputs without the secret ones. The
prompt of any other agent is what its templates say, so it shows a secret input if a template names
it (`input_shows_secret`), and only then: as long as no template names a secret input, the INPUT is
the same for all values that the secret inputs may have (`input_hides_secrets`).
-/

namespace Agents

/-! ## Inputs that differ in secrets -/

/-- Whether an input is declared secret; of two declarations of a name the first one counts. -/
def Definition.IsSecret (d : Definition) (name : String) : Prop :=
  ∃ declaration, d.input? name = some declaration ∧ declaration.secret = true

/-- Inputs that agree on everything that is not secret. -/
structure SameInPublic (d : Definition) (a b : Json.Fields) : Prop where
  left : a.Ordered
  right : b.Ordered
  agree : ∀ name, ¬ d.IsSecret name → Json.Fields.get? name a = Json.Fields.get? name b

/-- What is shown of the inputs. -/
def Definition.shows (d : Definition) (name : String) : Bool :=
  !((d.input? name).map (·.secret)).getD false

theorem Definition.shows_eq_true_iff {d : Definition} {name : String} :
    d.shows name = true ↔ ¬ d.IsSecret name := by
  unfold shows IsSecret
  cases d.input? name <;> simp

variable {d : Definition} {a b : Json.Fields}

namespace SameInPublic

theorem redact_eq (h : SameInPublic d a b) : redact d (.obj a) = redact d (.obj b) := by
  refine congrArg Json.obj (Json.Fields.ext_of_ordered (h.left.filter _) (h.right.filter _) ?_)
  intro key
  show Json.Fields.get? key (a.filter fun member => d.shows member.1) =
    Json.Fields.get? key (b.filter fun member => d.shows member.1)
  rw [Json.Fields.get?_filter, Json.Fields.get?_filter]
  split
  · next hshows => exact h.agree key (Definition.shows_eq_true_iff.mp hshows)
  · rfl

end SameInPublic

/-! ## Prompts -/

namespace Template

/-- The names that the placeholders of a template begin with. -/
def heads (template : String) : List String :=
  (parse template).filterMap fun
    | .placeholder (head :: _) => some (String.ofList head)
    | _ => none

structure Scope.AgreeOn (s : Scope) (names : List String) (s' : Scope) : Prop where
  inputs : ∀ name ∈ names, s.inputs.get? name = s'.inputs.get? name
  memory : s.memory = s'.memory
  declarations : s.declarations = s'.declarations

variable {s s' : Scope}

theorem lookup_eq {head : List Char}
    (hinputs : s.inputs.get? (String.ofList head) = s'.inputs.get? (String.ofList head))
    (hmemory : s.memory = s'.memory) (rest : List (List Char)) :
    s.lookup (head :: rest) = s'.lookup (head :: rest) := by
  simp only [Scope.lookup]
  by_cases hhead : String.ofList head = memoryHead
  · rw [← hhead, hinputs, hmemory]
  · rw [if_neg fun h => hhead h.1, if_neg fun h => hhead h.1, hinputs]

def SamePiece (s s' : Scope) : Piece → Prop
  | .literal _ => True
  | .placeholder path => s.lookup path = s'.lookup path ∧ s.isImage path = s'.isImage path

theorem Scope.AgreeOn.samePiece {template : String} (h : s.AgreeOn (heads template) s') :
    ∀ piece ∈ parse template, SamePiece s s' piece := by
  intro piece hpiece
  match piece with
  | .literal _ => exact trivial
  | .placeholder [] => exact ⟨rfl, rfl⟩
  | .placeholder (head :: rest) =>
    have hname : String.ofList head ∈ heads template :=
      List.mem_filterMap.mpr ⟨_, hpiece, rfl⟩
    refine ⟨lookup_eq (h.inputs _ hname) h.memory rest, ?_⟩
    unfold Scope.isImage
    rw [h.declarations]

variable {path : List (List Char)}

theorem image?_eq (h : SamePiece s s' (.placeholder path)) : s.image? path = s'.image? path := by
  unfold Scope.image?
  rw [h.1, h.2]

theorem text_eq (h : SamePiece s s' (.placeholder path)) : s.text path = s'.text path := by
  unfold Scope.text
  rw [image?_eq h, h.1]

theorem renderPiece_eq {piece : Piece} (h : SamePiece s s' piece) :
    s.renderPiece piece = s'.renderPiece piece := by
  match piece with
  | .literal _ => rfl
  | .placeholder path => exact congrArg String.toList (text_eq h)

theorem renderText_eq {template : String} (h : ∀ piece ∈ parse template, SamePiece s s' piece) :
    renderText s template = renderText s' template := by
  unfold renderText
  rw [List.flatMap_def, List.flatMap_def,
    List.map_congr_left fun piece hpiece => renderPiece_eq (h piece hpiece)]

theorem renderPieces_eq {pieces : List Piece} (h : ∀ piece ∈ pieces, SamePiece s s' piece)
    (collected : List Char) : renderPieces s collected pieces = renderPieces s' collected pieces := by
  induction pieces generalizing collected with
  | nil => rfl
  | cons piece rest ih =>
    have hpiece := h piece List.mem_cons_self
    have hrest := fun collected => ih (fun p hp => h p (List.mem_cons_of_mem piece hp)) collected
    match piece with
    | .literal c => exact hrest _
    | .placeholder path =>
      simp only [renderPieces, image?_eq hpiece, text_eq hpiece, hrest]

theorem renderParts_eq {template : String} (h : ∀ piece ∈ parse template, SamePiece s s' piece) :
    renderParts s template = renderParts s' template := by
  have himage : (parse template).map s.isImagePiece = (parse template).map s'.isImagePiece := by
    refine List.map_congr_left fun piece hpiece => ?_
    match piece with
    | .literal _ => rfl
    | .placeholder path => exact congrArg Option.isSome (image?_eq (h _ hpiece))
  have hany : (parse template).any s.isImagePiece = (parse template).any s'.isImagePiece := by
    simpa using congrArg (List.any · id) himage
  simp only [renderParts_eq_renderPieces, hany, renderPieces_eq h, renderText_eq h]

/-- Templates are rendered to the same messages if the inputs agree on the names in them. -/
theorem renderMessages_eq {templates : List PromptTemplate}
    (h : ∀ t ∈ templates, s.AgreeOn (heads t.content) s') :
    renderMessages s templates = renderMessages s' templates := by
  refine List.map_congr_left fun t ht => ?_
  have hpieces := (h t ht).samePiece
  simp only [renderMessage, renderParts_eq hpieces, renderText_eq hpieces]

end Template

/-! ## The INPUT -/

open Activity

/-- Every question for the memory of an agent is answered from this memory. -/
def RemembersAs (memory : Identity → Except Error (List (String × Json)))
    (log : List Exchange) : Prop :=
  ∀ identity answer, (⟨.memory identity, answer⟩ : Exchange) ∈ log → answer = memory identity

/-- No template of the agent's prompt names a secret input. -/
def Definition.PromptsInPublic (d : Definition) : Prop :=
  ∀ spec, d.kind = .modelPrompt spec → ∀ t ∈ spec.messages,
    ∀ name ∈ Template.heads t.content, ¬ d.IsSecret name

theorem runs_perform_input {t : TaskContext} {inputs : Json} {log : List Exchange}
    {es : List Event} {res : Except Error Json} (h : Runs (t.perform inputs).run log es res) :
    ∃ before after shown rest, log = before ++ after ∧ Runs (t.prompt inputs).run before [] shown ∧
      es = t.emitter.input (redact t.definition inputs) shown.toOption.join ++ rest := by
  obtain ⟨before, es₁, shown, log₁, es₂, rfl, rfl, hshown, h₁⟩ := runs_liftThen.mp h
  obtain ⟨hown, rfl⟩ := prompt_quiet t inputs hshown
  obtain ⟨log₂, es₃, _, log₃, es₄, rfl, rfl, hinput, h₂⟩ := runs_liftThen.mp h₁
  obtain ⟨rfl, rfl⟩ := runs_reportAll.mp hinput
  exact ⟨before, _, shown, es₄, rfl, hshown, rfl⟩

theorem ModelPrompt.runs_prompt {t : TaskContext} {spec : ModelPromptSpec} {inputs : Json}
    {log : List Exchange} {es : List Event} {shown : Except Error (List ChatMessage)}
    (h : Runs (ModelPrompt.prompt t spec inputs).run log es shown) :
    ∃ answer : Except Error (List (String × Json)), log = [⟨.memory t.identity, answer⟩] ∧
      shown = answer.map fun memory =>
        Template.renderMessages (t.scope inputs (Json.Fields.ofList memory)) spec.messages := by
  have hprompt : ModelPrompt.prompt t spec inputs = (fun memory =>
      Template.renderMessages (t.scope inputs memory) spec.messages) <$> t.memory :=
    (map_eq_pure_bind _ _).symm
  rw [hprompt] at h
  obtain ⟨memory, hmemory, rfl⟩ := runs_mapOk.mp h
  obtain ⟨answer, hanswer, rfl⟩ := runs_mapOk.mp hmemory
  obtain ⟨rfl, -⟩ := (runs_query (q := .memory t.identity)).mp hanswer
  exact ⟨answer, rfl, by cases answer <;> rfl⟩

section Input

variable {t : TaskContext} {a b : Json.Fields}
  {memory : Identity → Except Error (List (String × Json))} {log log' : List Exchange}

/-- The prompt that is shown is the same for inputs that agree on everything that is not secret. -/
theorem prompt_eq (h : SameInPublic t.definition a b) (hpublic : t.definition.PromptsInPublic)
    (hmem : RemembersAs memory log) (hmem' : RemembersAs memory log') {es es' : List Event}
    {shown shown' : Except Error (Option (List ChatMessage))}
    (hrun : Runs (t.prompt (.obj a)).run log es shown)
    (hrun' : Runs (t.prompt (.obj b)).run log' es' shown') : shown = shown' := by
  unfold TaskContext.prompt at hrun hrun'
  cases hkind : t.definition.kind with
  | modelPrompt spec =>
    simp only [hkind] at hrun hrun'
    obtain ⟨messages, hmessages, rfl⟩ := runs_mapOk.mp hrun
    obtain ⟨messages', hmessages', rfl⟩ := runs_mapOk.mp hrun'
    obtain ⟨answer, rfl, rfl⟩ := ModelPrompt.runs_prompt hmessages
    obtain ⟨answer', rfl, rfl⟩ := ModelPrompt.runs_prompt hmessages'
    rw [hmem _ _ List.mem_cons_self, hmem' _ _ List.mem_cons_self]
    have hrender (fields : Json.Fields) :
        Template.renderMessages (t.scope (.obj a) fields) spec.messages =
          Template.renderMessages (t.scope (.obj b) fields) spec.messages :=
      Template.renderMessages_eq fun template htemplate =>
        { inputs := fun name hname => h.agree name (hpublic spec hkind template htemplate name hname)
          memory := rfl
          declarations := rfl }
    simp only [hrender]
  | decision spec =>
    simp only [hkind] at hrun hrun'
    obtain ⟨-, -, rfl⟩ := runs_ok.mp hrun
    obtain ⟨-, -, rfl⟩ := runs_ok.mp hrun'
    rw [h.redact_eq]
  | scriptedLogic _ | pipeline _ | httpApi _ | imageGeneration _ =>
    simp only [hkind] at hrun hrun'
    obtain ⟨-, -, rfl⟩ := runs_ok.mp hrun
    obtain ⟨-, -, rfl⟩ := runs_ok.mp hrun'
    rfl

/-- As long as no template names a secret input, the INPUT of a task tells nothing about the secret
inputs. -/
theorem input_hides_secrets (h : SameInPublic t.definition a b)
    (hpublic : t.definition.PromptsInPublic) (hmem : RemembersAs memory log)
    (hmem' : RemembersAs memory log') {es es' : List Event} {res res' : Except Error Json}
    (hrun : Runs (t.perform (.obj a)).run log es res)
    (hrun' : Runs (t.perform (.obj b)).run log' es' res') :
    ∃ shown rest rest',
      es = t.emitter.input (redact t.definition (.obj a)) shown ++ rest ∧
      es' = t.emitter.input (redact t.definition (.obj a)) shown ++ rest' := by
  obtain ⟨before, after, shown, rest, rfl, hshown, rfl⟩ := runs_perform_input hrun
  obtain ⟨before', after', shown', rest', rfl, hshown', rfl⟩ := runs_perform_input hrun'
  have hsame : shown = shown' := prompt_eq h hpublic
    (fun identity answer hanswer => hmem identity answer (List.mem_append_left _ hanswer))
    (fun identity answer hanswer => hmem' identity answer (List.mem_append_left _ hanswer))
    hshown hshown'
  rw [← hsame, ← h.redact_eq]
  exact ⟨_, rest, rest', rfl, rfl⟩

end Input

/-! ## A guest and a key -/

/-- A task of an agent with a public and a secret input; its prompt is one template. -/
def doorman (template : String) : TaskContext where
  engine := { project := { id := "house" } }
  definition :=
    { id := "doorman", name := "Doorman"
      inputs := [{ name := "guest" }, { name := "key", secret := true }]
      kind := .modelPrompt { messages := [⟨.user, template⟩] } }
  identity := .inProject "house" "doorman"
  emitter := { taskId := "a", assistantId := "doorman", assistantName := "Doorman" }
  options := {}
  runChild := fun _ _ => pure .null

def guestWith (key : String) : Json.Fields := [("guest", .str "Ann"), ("key", .str key)]

def nothing (_ : Identity) : Except Error (List (String × Json)) := .ok []

theorem sameInPublic_guestWith (template key key' : String) :
    SameInPublic (doorman template).definition (guestWith key) (guestWith key') where
  left := List.pairwise_pair.mpr (by decide : "guest" < "key")
  right := List.pairwise_pair.mpr (by decide : "guest" < "key")
  agree := by
    intro name hpublic
    by_cases hkey : "key" = name
    · subst hkey
      exact absurd ⟨_, rfl, rfl⟩ hpublic
    · by_cases hguest : "guest" = name
      · simp [guestWith, Json.Fields.get?_cons, hguest]
      · simp [guestWith, Json.Fields.get?_cons, hguest, hkey]

theorem runs_doorman (template key : String) : ∃ log es res, RemembersAs nothing log ∧
    Runs ((doorman template).perform (.obj (guestWith key))).run log es res ∧
    es.head? = some (.input "a" none "doorman" "Doorman" (.obj [("guest", .str "Ann")])
      (some (Template.renderMessages ((doorman template).scope (.obj (guestWith key)) [])
        [⟨.user, template⟩]))) := by
  refine ⟨_, _, _, ?_, .answered ⟨.memory _, .ok []⟩ <| .report _ <|
    .answered ⟨.clock, ⟨0, 0⟩⟩ <| .report _ <| .answered ⟨.clock, ⟨0, 0⟩⟩ <| .report _ <| .done _,
    rfl⟩
  intro identity answer hanswer
  simp only [List.mem_cons, List.not_mem_nil, or_false] at hanswer
  rcases hanswer with h | h | h
  · cases h
    rfl
  · cases h
  · cases h

/-- Two keys, and one INPUT. -/
theorem input_hides_secrets_doorman : ∃ log log' es es' res res' shown rest rest',
    Runs ((doorman "Hello \x7b\x7bguest\x7d\x7d!").perform (.obj (guestWith "1234"))).run
      log es res ∧
    Runs ((doorman "Hello \x7b\x7bguest\x7d\x7d!").perform (.obj (guestWith "5678"))).run
      log' es' res' ∧
    es = .input "a" none "doorman" "Doorman" (.obj [("guest", .str "Ann")]) shown :: rest ∧
    es' = .input "a" none "doorman" "Doorman" (.obj [("guest", .str "Ann")]) shown :: rest' := by
  have hpublic : (doorman "Hello \x7b\x7bguest\x7d\x7d!").definition.PromptsInPublic := by
    intro spec hkind t ht name hname
    cases hkind
    rw [List.mem_singleton.mp ht] at hname
    have hguest : Template.heads "Hello \x7b\x7bguest\x7d\x7d!" = ["guest"] := by decide
    rw [hguest] at hname
    rw [List.mem_singleton.mp hname]
    rintro ⟨declaration, hfound, hsecret⟩
    cases hfound
    cases hsecret
  obtain ⟨log, es, res, hmem, hrun, -⟩ := runs_doorman "Hello \x7b\x7bguest\x7d\x7d!" "1234"
  obtain ⟨log', es', res', hmem', hrun', -⟩ := runs_doorman "Hello \x7b\x7bguest\x7d\x7d!" "5678"
  obtain ⟨shown, rest, rest', hes, hes'⟩ :=
    input_hides_secrets (sameInPublic_guestWith _ _ _) hpublic hmem hmem' hrun hrun'
  exact ⟨log, log', es, es', res, res', shown, rest, rest', hrun, hrun', hes, hes'⟩

/-- A template that names the key shows it. -/
theorem input_shows_secret : ∃ log log' es es' res res' rest rest',
    SameInPublic (doorman "\x7b\x7bkey\x7d\x7d").definition (guestWith "1234") (guestWith "5678") ∧
    RemembersAs nothing log ∧ RemembersAs nothing log' ∧
    Runs ((doorman "\x7b\x7bkey\x7d\x7d").perform (.obj (guestWith "1234"))).run log es res ∧
    Runs ((doorman "\x7b\x7bkey\x7d\x7d").perform (.obj (guestWith "5678"))).run log' es' res' ∧
    es = .input "a" none "doorman" "Doorman" (.obj [("guest", .str "Ann")])
      (some [.user "1234"]) :: rest ∧
    es' = .input "a" none "doorman" "Doorman" (.obj [("guest", .str "Ann")])
      (some [.user "5678"]) :: rest' := by
  obtain ⟨log, es, res, hmem, hrun, hes⟩ := runs_doorman "\x7b\x7bkey\x7d\x7d" "1234"
  obtain ⟨log', es', res', hmem', hrun', hes'⟩ := runs_doorman "\x7b\x7bkey\x7d\x7d" "5678"
  obtain ⟨rest, rfl⟩ := List.head?_eq_some_iff.mp hes
  obtain ⟨rest', rfl⟩ := List.head?_eq_some_iff.mp hes'
  exact ⟨log, log', _, _, res, res', rest, rest', sameInPublic_guestWith _ _ _, hmem, hmem', hrun,
    hrun', rfl, rfl⟩

end Agents
