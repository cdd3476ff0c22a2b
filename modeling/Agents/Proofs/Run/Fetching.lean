import Agents.Proofs.Run.Recording
import Agents.Proofs.Run.Serving
import Agents.Proofs.Url.Allowance

/-! # Scripts fetch what they may

A script that fetches an allowed URL has its request sent, as it is and once. Any other URL is
refused: nothing is sent, and the script has to face an error. That is all that a script itself
sends, in whatever attempt; the agents that it runs send what they send
(`ScriptedLogic.fetch_confined`).

- One fetch is sent or refused, whatever is answered (`runs_fetch`).
- No other call sends anything but through agents that it runs (`delegated_answer`).
-/

namespace Agents

open Activity Activity.Composable Script

def HttpRequest.ofFetch (method url : String) (body : Json) : HttpRequest :=
  { method, url, body := if body.isNull then none else some body }

/-! ## The function -/

/-- What a function that fetches comes to: the call, and then its result or the fault that the script
gets for its failure. -/
def Script.Eval.fetching {granted : CapabilitySet} (request : GrantedCall granted) (s : State) :
    Interaction granted (Except Signal (Option Effect) × State) :=
  .call request fun
    | .ok json => .done (.ok (some ⟨.ofJson json, none⟩), s)
    | .error e => .done (.error (.raised ⟨.ofError e, []⟩), s)

theorem Script.Eval.native_fetch {granted : CapabilitySet} (hgranted : granted.has .http)
    {name method url : String} {arguments : List Value} {body : Json}
    (h : HostCall.ofFunction? name arguments = some (.fetch method url body)) (s : State) :
    (Eval.native name arguments : Eval granted (Option Effect)).run.run s =
      Eval.fetching ⟨.fetch method url body, hgranted, false⟩ s := by
  have hcapability : granted.has (HostCall.fetch method url body).capability = true := hgranted
  unfold native
  simp only [h, dif_pos hcapability]
  refine congrArg (Interaction.call _) (funext fun answer => ?_)
  cases answer <;> rfl

namespace ScriptedLogic

variable {t : TaskContext} {emitter : TaskEmitter}

/-! ## A fetch -/

section Fetch

variable {method url : String} {body : Json} {log : List Exchange} {es : List Event}
  {r : Except Error Json}

/-- A fetch that is allowed sends its request and gives the response; any other sends nothing. -/
theorem runs_fetch : Runs (fetch t method url body).run log es r ↔
    (Url.Permitted t.engine.config.http.allowedBaseUrls url ∧ es = [] ∧
      ∃ response, log = [⟨.http (.ofFetch method url body), response⟩] ∧
        r = response.map HttpResponse.toJson) ∨
    (¬ Url.Permitted t.engine.config.http.allowedBaseUrls url ∧ es = [] ∧ log = [] ∧
      r = .error (.http none (Url.refusal url))) := by
  have hsend : Runs (HttpResponse.toJson <$> (ExceptT.mk (Activity.query
        (.http (.ofFetch method url body))) : Fallible HttpResponse)).run log es r ↔ es = [] ∧
      ∃ response, log = [⟨.http (.ofFetch method url body), response⟩] ∧
        r = response.map HttpResponse.toJson := by
    rw [runs_mapOk]
    constructor
    · rintro ⟨response, hquery, rfl⟩
      obtain ⟨rfl, rfl⟩ := runs_query.mp hquery
      exact ⟨rfl, response, rfl, rfl⟩
    · rintro ⟨rfl, response, rfl, rfl⟩
      exact ⟨response, runs_query.mpr ⟨rfl, rfl⟩, rfl⟩
  rcases Url.ensureAllowed_eq t.engine.config.http.allowedBaseUrls url with
    ⟨hpermitted, hcheck⟩ | ⟨hpermitted, hcheck⟩
  · have hfetch : fetch t method url body =
        HttpResponse.toJson <$> ExceptT.mk (Activity.query (.http (.ofFetch method url body))) := by
      unfold fetch
      rw [hcheck, map_eq_pure_bind]
      rfl
    rw [hfetch, hsend]
    simp [hpermitted]
  · have hfetch : fetch t method url body = throw (.http none (Url.refusal url)) := by
      unfold fetch
      rw [hcheck]
      rfl
    rw [hfetch, runs_throw]
    simp [hpermitted, and_left_comm]

end Fetch

/-! ## Other calls -/

/-- An exchange that consists of what children exchange and of questions to the clock. -/
inductive Delegated (t : TaskContext) : List Exchange → Prop
  | nil : Delegated t []
  | clock {x : Exchange} {log : List Exchange} :
      x.query = .clock → Delegated t log → Delegated t (x :: log)
  | child {agentRef : String} {inputs : Json} {r : Except Error Json} {inner log : List Exchange}
      {said : List Event} : Runs (t.runChild agentRef inputs).run inner said r →
      Delegated t log → Delegated t (inner ++ log)

theorem Delegated.append {log more : List Exchange} (h : Delegated t log)
    (hmore : Delegated t more) : Delegated t (log ++ more) := by
  induction h with
  | nil => exact hmore
  | clock hx _ ih => exact .clock hx ih
  | child hrun _ ih =>
    rw [List.append_assoc]
    exact .child hrun ih

/-- The activity leaves everything to children but the clock. -/
abbrev Delegates (t : TaskContext) {α : Type} (a : Activity α) : Prop :=
  Within (fun log _ => Delegated t log) a

theorem Delegated.composable (t : TaskContext) : Composable fun log _ => Delegated t log where
  nil := .nil
  append := Delegated.append

theorem delegates_report (es : List Event) : Delegates t (TaskContext.report es).run := by
  refine within_lift fun log es' r h => ?_
  obtain ⟨rfl, _⟩ := runs_reportAll.mp h
  exact .nil

theorem delegates_through {ω : Type} (step : ω → Event → List Event × ω) (s : ω) (agent : String)
    (inputs : Json) : Delegates t ((t.runChild agent inputs).run.through step s) := by
  intro log es r h
  obtain ⟨said, hchild, _⟩ := runs_through h
  simpa using Delegated.child hchild .nil

theorem delegates_write (c : Composer) (d : JsonDocument) (piece : String) :
    Delegates t (c.write d piece).run :=
  (Delegated.composable t).within.andThen (delegates_report _) fun _ =>
    (Delegated.composable t).within.ok _

theorem delegates_addPart (c : Composer) (d : JsonDocument) (part : DocumentPart) :
    Delegates t (c.addPart t d part).run := by
  have hL := Delegated.composable t
  cases part with
  | raw text => exact delegates_write c d text
  | value value => exact delegates_write c d value.compact
  | agent agent inputs =>
    refine hL.within.andThen (delegates_write c d _) fun d => ?_
    refine hL.within.andThen (within_lift (delegates_through _ _ agent inputs)) fun found => ?_
    refine hL.within.andThen (hL.within.ofExcept _) fun _ => ?_
    exact delegates_write c _ _

theorem delegates_runAgent (agent : String) (inputs : Json) (relayText : Bool) :
    Delegates t (runAgent t emitter agent inputs relayText).run := by
  have hL := Delegated.composable t
  unfold runAgent
  dsimp only
  split
  · exact hL.within.andThen (hL.within.mapOk _ (within_lift (delegates_through _ _ agent inputs)))
      hL.within.ofExcept
  · exact hL.within.andThen (hL.within.mapOk _ (within_lift (delegates_through _ _ agent inputs)))
      hL.within.ofExcept

theorem delegates_answer {call : HostCall}
    (hcall : ∀ method url body, call ≠ .fetch method url body) :
    Delegates t (answer t emitter call).run := by
  have hL := Delegated.composable t
  cases call with
  | log message =>
    refine hL.within.andThen (within_lift fun log es r h => ?_) fun now => ?_
    · obtain ⟨rfl, _⟩ := runs_query.mp h
      exact .clock rfl .nil
    · exact hL.within.andThen (delegates_report _) fun _ => hL.within.ok _
  | fetch method url body => exact absurd rfl (hcall method url body)
  | runAgent agent inputs relayText => exact delegates_runAgent agent inputs relayText
  | renderJson parts =>
    refine hL.within.andThen (hL.within.foldlM (fun d part => ?_) parts _) fun d => ?_
    · exact delegates_addPart _ d part
    · exact hL.within.ofExcept _

theorem Delegated.flatMap {α : Type} {f : α → List Exchange} {xs : List α}
    (h : ∀ x ∈ xs, Delegated t (f x)) : Delegated t (xs.flatMap f) := by
  induction xs with
  | nil => exact .nil
  | cons x rest ih =>
    rw [List.flatMap_cons]
    exact (h x List.mem_cons_self).append (ih fun y hy => h y (List.mem_cons_of_mem _ hy))

/-- What attempts leave to children is left to them by the whole. -/
theorem delegated_of_spaced {α : Type} {tries : List (Attempt α)} {log : List Exchange}
    (h : Spaced tries log) (htries : ∀ a ∈ tries, Delegated t a.log) : Delegated t log := by
  induction h with
  | nil => exact .nil
  | @cons a pause log later hpause _ ih =>
    have hclock : Delegated t (pause.flatMap fun x => [x]) :=
      .flatMap fun x hx => .clock (hpause x hx) .nil
    rw [List.flatMap_singleton'] at hclock
    refine (htries a List.mem_cons_self).append (hclock.append (ih fun b hb => ?_))
    exact htries b (List.mem_cons_of_mem _ hb)

/-! ## Attempts -/

/-- What a task asked for to serve a call: its request, if it is an allowed fetch, and nothing, if
it is any other; a call that is no fetch is left to children. -/
inductive Confined (t : TaskContext) {granted : CapabilitySet} (c : ServedCall granted) : Prop
  | sent {method url : String} {body : Json} {response : Except Error HttpResponse} :
      c.request.val = .fetch method url body →
      Url.Permitted t.engine.config.http.allowedBaseUrls url →
      c.log = [⟨.http (.ofFetch method url body), response⟩] →
      c.answer = response.map HttpResponse.toJson → Confined t c
  | refused {method url : String} {body : Json} :
      c.request.val = .fetch method url body →
      ¬ Url.Permitted t.engine.config.http.allowedBaseUrls url →
      c.log = [] → c.answer = .error (.http none (Url.refusal url)) → Confined t c
  | delegated : (∀ method url body, c.request.val ≠ .fetch method url body) →
      Delegated t c.log → Confined t c

theorem confined_of_ran {granted : CapabilitySet} {c : ServedCall granted}
    (h : c.Ran (answer t emitter)) : Confined t c := by
  unfold ServedCall.Ran at h
  by_cases hfetch : ∃ method url body, c.request.val = .fetch method url body
  · obtain ⟨method, url, body, hcall⟩ := hfetch
    rw [hcall] at h
    rcases runs_fetch.mp h with
      ⟨hpermitted, _, response, hlog, hanswer⟩ | ⟨hpermitted, _, hlog, hanswer⟩
    · exact .sent hcall hpermitted hlog hanswer
    · exact .refused hcall hpermitted hlog hanswer
  · have hcall : ∀ method url body, c.request.val ≠ .fetch method url body :=
      fun method url body hcall => hfetch ⟨method, url, body, hcall⟩
    exact .delegated hcall (delegates_answer hcall h)

theorem Confined.answer_of_not_permitted {granted : CapabilitySet} {c : ServedCall granted}
    {method url : String} {body : Json} (h : Confined t c)
    (hcall : c.request.val = .fetch method url body)
    (hpermitted : ¬ Url.Permitted t.engine.config.http.allowedBaseUrls url) :
    c.answer = .error (.http none (Url.refusal url)) := by
  cases h with
  | sent hcall' hpermitted' _ _ =>
    cases hcall.symm.trans hcall'
    exact absurd hpermitted' hpermitted
  | refused hcall' _ _ hanswer =>
    cases hcall.symm.trans hcall'
    exact hanswer
  | delegated hother _ => exact absurd hcall (hother _ _ _)

theorem Confined.delegated_of_unreadable {granted : CapabilitySet} {c : ServedCall granted}
    (h : Confined t c)
    (hnone : ∀ entry ∈ t.engine.config.http.allowedBaseUrls, ∀ base, Url.parse entry ≠ .ok base) :
    Delegated t c.log := by
  cases h with
  | sent _ hpermitted _ _ => exact absurd hpermitted (Url.not_permitted hnone _)
  | refused _ _ hlog _ => exact hlog ▸ .nil
  | delegated _ hlog => exact hlog

/-- A script sends nothing but what it may fetch. However its run goes: it makes attempts one after
another, and what they ask for is what the calls of the script ask for, each of which is `Confined`.
A call to fetch a URL that is not allowed, unless it is made to compare items that are being sorted,
leaves the script with an `HttpError`; every function that fetches waits for its call and raises
what that fails with. If no entry of the list is a URL, nothing is sent at all. -/
theorem fetch_confined {spec : ScriptSpec} {inputs : Json} {log : List Exchange} {es : List Event}
    {r : Except Error Json} (h : Runs (process t spec inputs).run log es r) :
    ∃ tries, Repeated (attempt t spec inputs) 1 tries ∧ Spaced tries log ∧
      (∀ a ∈ tries, ∃ calls outcome,
        (script t spec inputs).Talks (answer t (emitterOf t a.number)) calls outcome ∧
        a.log = calls.flatMap ServedCall.log ∧ (∀ c ∈ calls, Confined t c) ∧
        ∀ before c after method url body, calls = before ++ c :: after →
          c.request.val = .fetch method url body →
          ¬ Url.Permitted t.engine.config.http.allowedBaseUrls url →
          c.isWaited = true → c.request.isComparison = false →
          Told (answer t (emitterOf t a.number))
            ⟨"HttpError", "http call failed: " ++ Url.refusal url⟩ after outcome) ∧
      (∀ name arguments method url body,
        HostCall.ofFunction? name arguments = some (.fetch method url body) →
        ∀ (hgranted : t.engine.config.sandbox.capabilitySet.has .http) (s : State),
          (Eval.native name arguments : Eval _ (Option Effect)).run.run s =
            Eval.fetching ⟨.fetch method url body, hgranted, false⟩ s) ∧
      ((∀ entry ∈ t.engine.config.http.allowedBaseUrls, ∀ base, Url.parse entry ≠ .ok base) →
        Delegated t log) := by
  rw [process_eq_retry] at h
  obtain ⟨tries, hrepeated, _, _, hspaced⟩ := runs_retry h
  have hattempt : ∀ a ∈ tries, ∃ calls outcome,
      (script t spec inputs).Talks (answer t (emitterOf t a.number)) calls outcome ∧
      a.log = calls.flatMap ServedCall.log :=
    fun a ha => runs_attempt (hrepeated.ran a ha)
  refine ⟨tries, hrepeated, hspaced, fun a ha => ?_,
    fun _ _ _ _ _ hfunction hgranted s => Eval.native_fetch hgranted hfunction s, fun hnone => ?_⟩
  · obtain ⟨calls, outcome, htalks, hlog⟩ := hattempt a ha
    have hconfined : ∀ c ∈ calls, Confined t c := fun c hc => confined_of_ran (htalks.ran c hc)
    refine ⟨calls, outcome, htalks, hlog, hconfined, ?_⟩
    intro before c after method url body hcalls hcall hpermitted hwaited hplain
    have hanswer := (hconfined c (by simp [hcalls])).answer_of_not_permitted hcall hpermitted
    exact told_of_talks htalks hcalls hwaited hplain hanswer rfl
  · refine delegated_of_spaced hspaced fun a ha => ?_
    obtain ⟨calls, _, htalks, hlog⟩ := hattempt a ha
    rw [hlog]
    exact .flatMap fun c hc => (confined_of_ran (htalks.ran c hc)).delegated_of_unreadable hnone

/-! ## One script -/

/-- A script that fetches below its base URL and beside it, and says how it went. -/
def courier : ScriptSpec where
  source :=
    "let status = fetch(\"https://api.example.com/v1/items\").status; let name = \"\"; " ++
    "try \x7b fetch(\"https://api.example.com/v1x\"); \x7d catch (e) \x7b name = e.name; \x7d " ++
    "#\x7bstatus: status, name: name\x7d"

def depot : Engine :=
  { project := { id := "depot" }
    config := { http := { allowedBaseUrls := ["https://api.example.com/v1"] } } }

def courierTask : TaskContext :=
  depot.taskContext 1 (.inProject "depot" "courier")
    { id := "courier", name := "Courier", kind := .scriptedLogic courier } {} "a"

def answeringServices : Services (StateM Nat) :=
  { countingServices with http := fun _ => return .ok { status := 200, body := .null } }

/-- The first fetch has an answer, and the second an error. -/
theorem fetch_confined_courier : ∃ log es outputs,
    Runs (process courierTask courier .null).run log es (.ok outputs) ∧
    outputs.compact = "\x7b\"name\":\"HttpError\",\"status\":200\x7d" ∧
    ∃ tries, Repeated (attempt courierTask courier .null) 1 tries ∧ Spaced tries log ∧
      ∀ a ∈ tries, ∃ calls outcome, (script courierTask courier .null).Talks
        (answer courierTask (emitterOf courierTask a.number)) calls outcome ∧
        a.log = calls.flatMap ServedCall.log ∧ ∀ c ∈ calls, Confined courierTask c := by
  have hseen : (answeringServices.observe (process courierTask courier .null).run none 0).map
      (fun seen => seen.result.toOption.map Json.compact) =
      some (some "\x7b\"name\":\"HttpError\",\"status\":200\x7d") := by decide +kernel
  obtain ⟨⟨result, es, cache⟩, hobserved, hresult⟩ := Option.map_eq_some_iff.mp hseen
  obtain ⟨log, hruns, _⟩ := Services.runs_of_observe hobserved
  obtain ⟨outputs, houtputs, hcompact⟩ := Option.map_eq_some_iff.mp hresult
  cases result with
  | error e => cases houtputs
  | ok value =>
    obtain rfl : value = outputs := Option.some.inj houtputs
    obtain ⟨tries, hrepeated, hspaced, hcalls, _⟩ := fetch_confined hruns
    refine ⟨log, es, value, hruns, hcompact, tries, hrepeated, hspaced, fun a ha => ?_⟩
    obtain ⟨calls, outcome, htalks, hlog, hconfined, _⟩ := hcalls a ha
    exact ⟨calls, outcome, htalks, hlog, hconfined⟩

end ScriptedLogic

end Agents
