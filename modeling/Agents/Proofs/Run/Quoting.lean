import Agents.Proofs.Json.Place
import Agents.Proofs.Run.Snapshots

/-! # What an agent says stays in its string

A script composes a document of text as it is, of values, and of what agents say while they are run.
What an agent says arrives in fragments, each of which is escaped on its own.

- The fragments of an agent make one string between their quotes (`JsonDocument.quote_join`), so the
  text of the document is known from what was said (`documentText`, `runs_renderJson`).
- Where a value may stand, such a string is the part of the document at its place
  (`AgentPlaces.part?_eq`), and agents stand apart from one another (`AgentPlaces.apart`).
- Whatever the agents say, the document is the same but for the parts at their places
  (`AgentPlaces.exists_filled`). Here they are exchanged from the last agent to the first, because
  what stands before an agent depends only on the agents before it.
-/

namespace Agents

open Activity Json

/-! ## Fragments -/

namespace JsonDocument

theorem toList_escapeFragment (text : String) :
    (escapeFragment text).toList = escape text.toList := String.toList_ofList

theorem toList_join_escapeFragment (fragments : List String) :
    (String.join (fragments.map escapeFragment)).toList =
      escape (String.join fragments).toList := by
  induction fragments with
  | nil => rfl
  | cons fragment rest ih =>
    rw [List.map_cons, String.join_cons, String.toList_append, ih, String.join_cons,
      String.toList_append, toList_escapeFragment]
    exact List.flatMap_append.symm

theorem quote_join (fragments : List String) :
    "\"" ++ String.join (fragments.map escapeFragment) ++ "\"" = quote (String.join fragments) := by
  rw [← String.toList_inj, toList_quote, String.toList_append, String.toList_append,
    toList_join_escapeFragment]
  rfl

end JsonDocument

/-! ## The text of a document -/

/-- The text of a document of these parts when its agents say this, one after another. -/
def documentText : List Script.DocumentPart → (said : List String) → List Char
  | [], _ => []
  | .raw text :: parts, said => text.toList ++ documentText parts said
  | .value value :: parts, said => value.compact.toList ++ documentText parts said
  | .agent _ _ :: parts, s :: said => (quote s).toList ++ documentText parts said
  | .agent _ _ :: parts, [] => documentText parts []

/-- Behind this beginning each of the agents stands where a value may stand, and these are their
places. -/
inductive AgentPlaces : (front : List Char) → List Script.DocumentPart →
    (said : List String) → (places : List (List Nat)) → Prop
  | done {front : List Char} : AgentPlaces front [] [] []
  | raw {front : List Char} {text : String} {parts : List Script.DocumentPart}
      {said : List String} {places : List (List Nat)}
      (h : AgentPlaces (front ++ text.toList) parts said places) :
      AgentPlaces front (.raw text :: parts) said places
  | value {front : List Char} {value : Json} {parts : List Script.DocumentPart}
      {said : List String} {places : List (List Nat)}
      (h : AgentPlaces (front ++ value.compact.toList) parts said places) :
      AgentPlaces front (.value value :: parts) said places
  | agent {front : List Char} {agent : String} {inputs : Json} {s : String}
      {parts : List Script.DocumentPart} {said : List String} {place : List Nat}
      {places : List (List Nat)} (hplace : Awaits maxDepth front place)
      (h : AgentPlaces (front ++ (quote s).toList) parts said places) :
      AgentPlaces front (.agent agent inputs :: parts) (s :: said) (place :: places)

section Places

variable {front text text' : List Char} {parts : List Script.DocumentPart}
  {said said' : List String} {places : List (List Nat)}

theorem AgentPlaces.length_eq (h : AgentPlaces front parts said places) :
    said.length = places.length := by
  induction h with
  | done => rfl
  | raw h ih | value h ih => exact ih
  | agent hplace h ih => rw [List.length_cons, List.length_cons, ih]

theorem AgentPlaces.map_fst_zip (h : AgentPlaces front parts said places)
    (hlength : said'.length = said.length) : (places.zip said').map (·.1) = places :=
  List.map_fst_zip (by rw [hlength, h.length_eq])

/-- At the places of the agents there are the strings that they say, behind the beginning of the
document. -/
theorem AgentPlaces.exists_string (h : AgentPlaces front parts said places) :
    ∀ x ∈ places.zip said, ∃ mid back, Awaits maxDepth (front ++ mid) x.1 ∧
      front ++ documentText parts said = (front ++ mid) ++ ((quote x.2).toList ++ back) := by
  induction h with
  | done => exact nofun
  | raw h ih | value h ih =>
    intro x hx
    obtain ⟨mid, back, hawaits, htext⟩ := ih x hx
    rw [List.append_assoc] at hawaits
    exact ⟨_, back, hawaits, by simpa [documentText] using htext⟩
  | agent hplace h ih =>
    rw [List.zip_cons_cons, List.forall_mem_cons]
    constructor
    · exact ⟨[], _, by rwa [List.append_nil], by rw [List.append_nil]; rfl⟩
    · intro x hx
      obtain ⟨mid, back, hawaits, htext⟩ := ih x hx
      rw [List.append_assoc] at hawaits
      exact ⟨_, back, hawaits, by simpa [documentText] using htext⟩

/-- The agents' strings are the parts of the document at their places. -/
theorem AgentPlaces.part?_eq (h : AgentPlaces front parts said places) (spelling : Spelling text)
    (htext : text = front ++ documentText parts said) :
    ∀ x ∈ places.zip said, spelling.tree.part? x.1 = some (.quoted x.2) := by
  intro x hx
  obtain ⟨mid, back, hawaits, hsplit⟩ := h.exists_string x hx
  obtain ⟨front', back', hat, -, -⟩ := spelling.exists_at (htext.trans hsplit) hawaits
  exact hat.part?_eq

theorem AgentPlaces.exists_said (h : AgentPlaces front parts said places) {place : List Nat}
    (hplace : place ∈ places) : ∃ s, (place, s) ∈ places.zip said := by
  rw [← h.map_fst_zip rfl] at hplace
  obtain ⟨⟨place, s⟩, hx, rfl⟩ := List.mem_map.mp hplace
  exact ⟨s, hx⟩

/-- No agent stands inside of what another one says. -/
theorem AgentPlaces.apart (h : AgentPlaces front parts said places) (spelling : Spelling text)
    (htext : text = front ++ documentText parts said) : places.Pairwise ParseTree.Apart := by
  induction h with
  | done => exact .nil
  | raw h ih | value h ih => exact ih (by rw [htext, List.append_assoc]; rfl)
  | @agent front agent inputs s parts said place places hplace h ih =>
    have hrest : text = front ++ (quote s).toList ++ documentText parts said := by
      rw [htext, List.append_assoc]
      rfl
    refine List.pairwise_cons.mpr ⟨fun later hlater => ?_, ih hrest⟩
    obtain ⟨s', hlater⟩ := h.exists_said hlater
    obtain ⟨mid, back, hawaits, hlast⟩ := h.exists_string _ hlater
    obtain ⟨front₁, back₁, hat, hfront, -⟩ := spelling.exists_at htext hplace
    obtain ⟨front₂, back₂, hat', hfront', -⟩ := spelling.exists_at (hrest.trans hlast) hawaits
    have hbehind : front₂ = front₁ ++ ((ParseTree.quoted s).text ++ mid) := by
      rw [← hfront, List.append_assoc, List.append_assoc] at hfront'
      exact List.append_cancel_left hfront'
    refine hat.apart (hbehind ▸ hat') ?_
    simp [ParseTree.quoted, ParseTree.text, toList_quote]

/-- Whatever else the agents say, the document is the same but for the parts at their places. -/
theorem AgentPlaces.exists_filled (h : AgentPlaces front parts said places)
    (spelling : Spelling text) (htext : text = front ++ documentText parts said)
    (htext' : text' = front ++ documentText parts said') (hlength : said'.length = said.length) :
    ∃ spelling' : Spelling text', spelling'.tree = spelling.tree.fill (places.zip said') := by
  induction h generalizing text' said' with
  | done =>
    subst htext htext'
    exact ⟨spelling, rfl⟩
  | raw h ih | value h ih =>
    exact ih (by rw [htext, List.append_assoc]; rfl) (by rw [htext', List.append_assoc]; rfl)
      hlength
  | @agent front agent inputs s parts said place places hplace h ih =>
    obtain ⟨s', said', rfl⟩ := List.exists_cons_of_length_eq_add_one hlength
    obtain ⟨others, htree⟩ := ih (by rw [htext, List.append_assoc]; rfl) rfl
      (Nat.succ.inj hlength)
    obtain ⟨spelling', htree'⟩ := others.exists_exchanged (List.append_assoc _ _ _) hplace s'
    subst htext'
    exact ⟨spelling', by rw [htree', htree]; rfl⟩

end Places

/-! ## Composing -/

/-- What the agents among some parts say while they are run one after another. -/
inductive TaskContext.Hears (t : TaskContext) : List Script.DocumentPart → List Exchange →
    (spoken : List (List String)) → Prop
  | done : t.Hears [] [] []
  | raw (text : String) {parts : List Script.DocumentPart} {log : List Exchange}
      {spoken : List (List String)} (h : t.Hears parts log spoken) :
      t.Hears (.raw text :: parts) log spoken
  | value (value : Json) {parts : List Script.DocumentPart} {log : List Exchange}
      {spoken : List (List String)} (h : t.Hears parts log spoken) :
      t.Hears (.value value :: parts) log spoken
  | agent {agent : String} {inputs outputs : Json} {parts : List Script.DocumentPart}
      {log more : List Exchange} {es : List Event} {texts : List String}
      {spoken : List (List String)}
      (hruns : Runs (t.runChild agent inputs).run log es (.ok outputs))
      (hspeech : Says t.emitter.taskId es texts) (h : t.Hears parts more spoken) :
      t.Hears (.agent agent inputs :: parts) (log ++ more) (texts :: spoken)

section Composing

variable {c : Composer} {document document' : JsonDocument} {log : List Exchange}
  {es : List Event}

theorem Composer.text_of_write {piece : String} {r : Except Error JsonDocument}
    (h : Runs (c.write document piece).run log es r) :
    log = [] ∧ ∃ document', r = .ok document' ∧ document'.text = document.text ++ piece := by
  obtain ⟨rfl, document', rfl, hgrows⟩ := grows_write h
  exact ⟨rfl, document', rfl, by rw [hgrows.document, JsonDocument.appendAll_text]; rfl⟩

/-- While a child is run, the text grows by what is heard of it, whoever is told of that. -/
theorem Composer.text_of_passAll (w : ChildWatch) (said : List Event) :
    (passAll c.observe (w, document) said).2.2.text = document.text ++
      String.join (((w.observeAll said).filterMap Prod.snd).map JsonDocument.escapeFragment) := by
  induction said generalizing w document with
  | nil => simp [passAll, ChildWatch.observeAll]
  | cons event rest ih =>
    show (passAll c.observe (c.observe (w, document) event).2 rest).2.2.text = _
    cases hsaid : (w.observe event).2 with
    | none =>
      have hstep : (c.observe (w, document) event).2 = ((w.observe event).1, document) := by
        simp [observe, hsaid]
      have hheard : (w.observeAll (event :: rest)).filterMap Prod.snd =
          ((w.observe event).1.observeAll rest).filterMap Prod.snd := by
        simp [ChildWatch.observeAll, hsaid]
      rw [hstep, hheard, ih]
    | some text =>
      have hstep : (c.observe (w, document) event).2 = ((w.observe event).1,
          (document.append c.accepts (JsonDocument.escapeFragment text)).2) := by
        simp [observe, add, hsaid]
      have hheard : (w.observeAll (event :: rest)).filterMap Prod.snd =
          text :: ((w.observe event).1.observeAll rest).filterMap Prod.snd := by
        simp [ChildWatch.observeAll, hsaid]
      rw [hstep, hheard, ih, JsonDocument.append_text, List.map_cons, String.join_cons,
        String.append_assoc]

variable {e : Engine} {depth : Nat} {identity : Identity} {d : Definition} {options : RunOptions}
  {id : TaskId}

theorem Composer.text_of_addAgent {agent : String} {inputs : Json}
    (h : Runs (c.addAgent (e.taskContext depth identity d options id) document agent inputs).run
      log es (.ok document')) : ∃ said outputs texts,
      Runs ((e.taskContext depth identity d options id).runChild agent inputs).run log said
        (.ok outputs) ∧ Says id said texts ∧
      document'.text = document.text ++ quote (String.join texts) := by
  rcases runs_andThen.mp h with
    ⟨failure, hfailure, -⟩ | ⟨log₁, es₁, document₁, log₂, es₂, rfl, rfl, hopen, hrest⟩
  · cases hfailure
  obtain ⟨rfl, _, hok, hopened⟩ := text_of_write hopen
  cases hok
  obtain ⟨log₃, es₃, found, log₄, es₄, rfl, rfl, hthrough, hclose⟩ := runs_liftThen.mp hrest
  obtain ⟨said, hchild, hpass⟩ := runs_through hthrough
  obtain ⟨result, watch, document₂⟩ := found
  obtain ⟨texts, hspeech⟩ := Engine.exists_says hchild
  have hheard : document₂.text = document₁.text ++
      String.join (texts.map JsonDocument.escapeFragment) := by
    rw [← hspeech.filterMap_observeAll, ← text_of_passAll (c := c)]
    exact congrArg (fun passed => passed.2.2.text) hpass.symm
  rcases runs_andThen.mp hclose with
    ⟨failure, hfailure, -⟩ | ⟨log₅, es₅, outputs, log₆, es₆, rfl, rfl, hresult, hlast⟩
  · cases hfailure
  obtain ⟨rfl, rfl, rfl⟩ := runs_ofExcept.mp hresult
  obtain ⟨rfl, _, hok, hclosed⟩ := text_of_write hlast
  cases hok
  refine ⟨said, outputs, texts, by simpa using hchild, hspeech, ?_⟩
  rw [hclosed, hheard, hopened, ← JsonDocument.quote_join]
  simp [String.append_assoc]

theorem hears_addParts {parts : List Script.DocumentPart}
    (h : Runs (parts.foldlM (c.addPart (e.taskContext depth identity d options id)) document).run
      log es (.ok document')) : ∃ spoken,
      (e.taskContext depth identity d options id).Hears parts log spoken ∧
      document'.text.toList =
        document.text.toList ++ documentText parts (spoken.map String.join) := by
  induction parts generalizing document log es with
  | nil =>
    obtain ⟨rfl, rfl, hdocument⟩ := runs_ok.mp h
    cases hdocument
    exact ⟨[], .done, by simp [documentText]⟩
  | cons part rest ih =>
    rw [List.foldlM_cons] at h
    rcases runs_andThen.mp h with
      ⟨failure, hfailure, -⟩ | ⟨log₁, es₁, document₁, log₂, es₂, rfl, rfl, hpart, hrest⟩
    · cases hfailure
    obtain ⟨spoken, hspoken, htext⟩ := ih hrest
    cases part with
    | raw text =>
      obtain ⟨rfl, _, hok, hgrown⟩ := Composer.text_of_write hpart
      cases hok
      refine ⟨spoken, .raw text hspoken, ?_⟩
      rw [htext, hgrown, String.toList_append, List.append_assoc]
      rfl
    | value value =>
      obtain ⟨rfl, _, hok, hgrown⟩ := Composer.text_of_write hpart
      cases hok
      refine ⟨spoken, .value value hspoken, ?_⟩
      rw [htext, hgrown, String.toList_append, List.append_assoc]
      rfl
    | agent agent inputs =>
      obtain ⟨said, outputs, texts, hruns, hspeech, hgrown⟩ := Composer.text_of_addAgent hpart
      refine ⟨texts :: spoken, .agent hruns hspeech hspoken, ?_⟩
      rw [htext, hgrown, String.toList_append, List.append_assoc]
      rfl

/-- The value of a composed document is that of its text. -/
theorem runs_renderJson {emitter : TaskEmitter} {parts : List Script.DocumentPart} {v : Json}
    (h : Runs (ScriptedLogic.answer (e.taskContext depth identity d options id) emitter
      (.renderJson parts)).run log es (.ok v)) : ∃ spoken,
      (e.taskContext depth identity d options id).Hears parts log spoken ∧
      Json.document (documentText parts (spoken.map String.join)) = .ok v := by
  rcases runs_andThen.mp h with
    ⟨failure, hfailure, -⟩ | ⟨log₁, es₁, document₁, log₂, es₂, rfl, rfl, hparts, hvalue⟩
  · cases hfailure
  obtain ⟨spoken, hspoken, htext⟩ := hears_addParts hparts
  obtain ⟨rfl, rfl, hresult⟩ := runs_ofExcept.mp hvalue
  refine ⟨spoken, by simpa using hspoken, ?_⟩
  have htext' : document₁.text.toList = documentText parts (spoken.map String.join) := htext
  rw [← htext', ← parse_eq_ok_iff]
  change Except.ok v = (Json.parse document₁.text).mapError _ at hresult
  cases hparse : Json.parse document₁.text with
  | error _ =>
    rw [hparse] at hresult
    cases hresult
  | ok value =>
    rw [hparse] at hresult
    cases hresult
    rfl

end Composing

/-- Fragments that are escaped one by one make one string between quotes. So when a script composes
a document in which each agent stands where a value may stand, the part of the document at that
place is the text that the agent streams; and whatever the agents say, the document is the same but
for these parts. -/
theorem renderJson_quotes :
    (∀ fragments : List String, Json.parse
      ("\"" ++ String.join (fragments.map JsonDocument.escapeFragment) ++ "\"") =
        .ok (.str (String.join fragments))) ∧
    ∀ (e : Engine) depth identity d options id emitter parts log es v,
      Runs (ScriptedLogic.answer (e.taskContext depth identity d options id) emitter
        (.renderJson parts)).run log es (.ok v) →
      ∃ spoken, (e.taskContext depth identity d options id).Hears parts log spoken ∧
        ∃ spelling : Spelling (documentText parts (spoken.map String.join)),
          spelling.tree.value = v ∧
          ∀ places, AgentPlaces [] parts (spoken.map String.join) places →
            (∀ x ∈ places.zip (spoken.map String.join),
              spelling.tree.part? x.1 = some (.quoted x.2) ∧
              (spelling.tree.Distinct → v.at? (spelling.tree.steps x.1) = some (.str x.2))) ∧
            ∀ said' : List String, said'.length = spoken.length →
              ∃ spelling' : Spelling (documentText parts said'),
                spelling'.tree = spelling.tree.fill (places.zip said') ∧
                Json.parse (String.ofList (documentText parts said')) = .ok spelling'.tree.value ∧
                (∀ x ∈ places.zip said', spelling'.tree.part? x.1 = some (.quoted x.2)) ∧
                ∀ place, (∀ p ∈ places, ParseTree.Apart p place) →
                  spelling'.tree.part? place = spelling.tree.part? place := by
  refine ⟨fun fragments => ?_, ?_⟩
  · rw [JsonDocument.quote_join, parse_quote]
  · intro e depth identity d options id emitter parts log es v h
    obtain ⟨spoken, hspoken, hdocument⟩ := runs_renderJson h
    obtain ⟨spelling, rfl⟩ := exists_spelling hdocument
    refine ⟨spoken, hspoken, spelling, rfl, fun places hplaces => ⟨fun x hx => ?_, ?_⟩⟩
    · have hpart := hplaces.part?_eq spelling rfl x hx
      exact ⟨hpart, ParseTree.at?_steps hpart⟩
    · intro said' hlength
      have hlength' : said'.length = (spoken.map String.join).length := by
        rw [hlength, List.length_map]
      obtain ⟨spelling', htree⟩ := hplaces.exists_filled spelling rfl rfl hlength'
      refine ⟨spelling', htree, ?_, ?_, fun place hplace => ?_⟩
      · rw [parse_eq_ok_iff, String.toList_ofList]
        exact spelling'.document_eq
      · rw [htree]
        refine ParseTree.part?_fill ?_ fun x hx => ?_
        · rw [hplaces.map_fst_zip hlength']
          exact hplaces.apart spelling rfl
        · obtain ⟨s, hs⟩ := hplaces.exists_said (List.of_mem_zip hx).1
          exact ⟨_, hplaces.part?_eq spelling rfl (x.1, s) hs⟩
      · rw [htree]
        exact ParseTree.part?_fill_of_apart fun x hx => hplace x.1 (List.of_mem_zip hx).1

def headline : List Script.DocumentPart :=
  [.raw "\x7b\"title\":", .agent "narrator" (.obj []), .raw ",\"by\":\"us\"\x7d"]

def slyServices : Services (StateM Nat) :=
  { countingServices with
    model := fun _ _ => return .ok [.ok (.text "Once\","), .ok (.text "\"by\":\"me")] }

theorem awaits_headline : Awaits maxDepth ([] ++ "\x7b\"title\":".toList) [0] := by
  have htext : "\x7b\"title\":".toList =
      [] ++ (opening .object [] [] ++ (((quote "title").toList ++ [':']) ++ [])) := by
    decide +kernel
  rw [List.nil_append, htext]
  exact .entry blank_nil blank_nil nofun (isHead_quote "title") (.here blank_nil)

/-- What the model says is the title, all of it, as any other text would be. -/
theorem renderJson_quotes_headline : ∃ (log : List Exchange) (es : List Event) (v : Json)
    (spoken : List (List String)),
    Runs (ScriptedLogic.answer
      (press.taskContext 1 (.inProject "press" "editor") editor {} "editor")
      (.forAgent editor "editor" none) (.renderJson headline)).run log es (.ok v) ∧
    v.compact = "\x7b\"by\":\"us\",\"title\":\"Once\\\",\\\"by\\\":\\\"me\"\x7d" ∧
    AgentPlaces [] headline (spoken.map String.join) [[0]] ∧
    ∃ tree : ParseTree, tree.value = v ∧ ∀ s, ∃ spelling : Spelling (documentText headline [s]),
      spelling.tree = tree.fill [([0], s)] := by
  have hseen : (slyServices.observe (ScriptedLogic.answer
      (press.taskContext 1 (.inProject "press" "editor") editor {} "editor")
      (.forAgent editor "editor" none) (.renderJson headline)).run none 0).map
      (fun seen => seen.result.toOption.map Json.compact) = some (some
        "\x7b\"by\":\"us\",\"title\":\"Once\\\",\\\"by\\\":\\\"me\"\x7d") := by
    decide +kernel
  obtain ⟨⟨result, es, cache⟩, hobserved, hresult⟩ := Option.map_eq_some_iff.mp hseen
  obtain ⟨log, hruns, -⟩ := Services.runs_of_observe hobserved
  cases result with
  | error failure => cases hresult
  | ok v =>
    obtain ⟨spoken, hspoken, spelling, hvalue, hquotes⟩ :=
      renderJson_quotes.2 _ _ _ _ _ _ _ _ _ _ _ hruns
    have hplaces : AgentPlaces [] headline (spoken.map String.join) [[0]] := by
      cases hspoken with
      | raw _ hspoken =>
        cases hspoken with
        | agent _ _ hspoken =>
          cases hspoken with
          | raw _ hspoken =>
            cases hspoken
            exact .raw (.agent awaits_headline (.raw .done))
    have hlength : spoken.length = 1 := by
      simpa using hplaces.length_eq
    obtain ⟨-, hfilled⟩ := hquotes _ hplaces
    refine ⟨log, es, v, spoken, hruns, Option.some.inj hresult, hplaces, spelling.tree, hvalue,
      fun s => ?_⟩
    obtain ⟨spelling', htree, -⟩ := hfilled [s] hlength.symm
    exact ⟨spelling', htree⟩

end Agents
