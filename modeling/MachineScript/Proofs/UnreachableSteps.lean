import MachineScript.Proofs.Lowering
import MachineScript.Proofs.Run

/-!
Contract: the reports on unreachable steps against the bodies that they are about.

Owns:
- the steps of a body with their places, and the first transfer among them with
  the step right behind it;
- that a program's reports are those of its states and handlers, one for each
  transfer that is not the last step of its body, in source order;
- that a run never gets behind the first transfer.

A step is reported if the step in front of it is a transfer. Only the first such
report of a body is about where the run ends: a transfer behind another one is
unreachable itself, and yet the step behind it is reported as cut off by it.
-/

namespace MachineScript

open Grammar
open Form (Owner)
open Token (word bracketed)

/-! ## Steps in their places -/

/-- A step of a body, with the position and the offset of its opening bracket. -/
structure PlacedStep where
  position : Nat
  offset : Nat
  action : Step

namespace PlacedStep

def transfer? (step : PlacedStep) : Option Transfer :=
  step.action.transfer?

def instruction (number : Nat → ExemplarId) (step : PlacedStep) : Instruction :=
  step.action.instruction number step.position

/-- The report on a step that a transfer cuts off, filed under the position of the step. -/
def cutOffBy (owner : String) (transfer : Transfer) (step : PlacedStep) : Nat × UnreachableStep :=
  (step.position, ⟨owner, transfer, step.offset⟩)

/-- The report on the step right behind a transfer, if there are both. -/
def reportBehind (owner : String) (last : Option Transfer) (steps : List PlacedStep) :
    Option (Nat × UnreachableStep) :=
  last.bind fun transfer => steps.head?.map fun step => step.cutOffBy owner transfer

/-- The reports on steps: each step whose predecessor is a transfer. -/
def reports (owner : String) (steps : List PlacedStep) : List (Nat × UnreachableStep) :=
  (steps.zip steps.tail).filterMap fun (step, next) =>
    step.transfer?.map fun transfer => next.cutOffBy owner transfer

/-- The first transfer among steps and the step right behind it, if there are both. -/
def cut? : List PlacedStep → Option (Transfer × PlacedStep)
  | [] => none
  | step :: rest =>
      match step.transfer? with
      | some transfer => rest.head?.map fun next => (transfer, next)
      | none => cut? rest

end PlacedStep

def Form.step? (position : Nat) : Form → Option PlacedStep
  | .step offset action => some ⟨position, offset, action⟩
  | _ => none

/-- The steps of a body that starts at a position. -/
def Form.steps (position : Nat) (body : List Form) : List PlacedStep :=
  (Form.placed position body).filterMap fun (place, form) => form.step? place

/-- The steps in the body of a construct. -/
def Site.steps (site : Site) : List PlacedStep :=
  match site.part with
  | .program body => Form.steps (site.position + 1) body
  | .definition _ head body => Form.steps (site.position + 1 + head.length) body
  | .call _ _ _ _ => []

/-- The reports on the steps of a construct, if its runs end at a transfer. -/
def Site.reports (number : Nat → ExemplarId) (site : Site) : List (Nat × UnreachableStep) :=
  let exemplar := site.exemplar number
  if exemplar.construct.suspends then PlacedStep.reports exemplar.name site.steps else []

namespace PlacedStep

variable {owner : String}

theorem reports_cons (step : PlacedStep) (rest : List PlacedStep) :
    reports owner (step :: rest)
      = (reportBehind owner step.transfer? rest).toList ++ reports owner rest := by
  cases rest with
  | nil => cases step.transfer? <;> rfl
  | cons next others =>
      cases isTransfer : step.transfer? with
      | none => exact List.filterMap_cons_none (congrArg (Option.map _) isTransfer)
      | some transfer => exact List.filterMap_cons_some (congrArg (Option.map _) isTransfer)

/-- The first report is about the step behind the first transfer. -/
theorem head?_reports (steps : List PlacedStep) :
    (reports owner steps).head?
      = (cut? steps).map fun (transfer, step) => step.cutOffBy owner transfer := by
  induction steps with
  | nil => rfl
  | cons step rest inductionHypothesis =>
      rw [reports_cons, cut?]
      cases isTransfer : step.transfer? with
      | none => exact inductionHypothesis
      | some transfer =>
          cases rest with
          | nil => rfl
          | cons next others => rfl

/-- There is a report for each transfer but one that is the last step. -/
theorem length_reports (steps : List PlacedStep) :
    (reports owner steps).length
      = steps.dropLast.countP fun step => step.transfer?.isSome := by
  induction steps with
  | nil => rfl
  | cons step rest inductionHypothesis =>
      rw [reports_cons, List.length_append, inductionHypothesis]
      cases rest with
      | nil => cases step.transfer? <;> rfl
      | cons next others =>
          rw [List.dropLast_cons_cons, List.countP_cons, Nat.add_comm]
          cases step.transfer? <;> rfl

end PlacedStep

/-! ## Reports in source order -/

/-- Reports filed under positions from one up to another, in order, and all of them given. -/
structure Filed (reports : List (Nat × UnreachableStep)) (start stop : Nat)
    (warnings : List UnreachableStep) : Prop where
  warnings : reports.map Prod.snd = warnings
  bounds : ∀ report ∈ reports, start ≤ report.1 ∧ report.1 < stop
  sorted : reports.Pairwise fun left right => left.1 < right.1

namespace Filed

variable {first second : List (Nat × UnreachableStep)} {start middle stop : Nat}
  {earlier later : List UnreachableStep}

theorem nil (start stop : Nat) : Filed [] start stop [] :=
  ⟨rfl, nofun, List.Pairwise.nil⟩

theorem append (front : Filed first start middle earlier) (back : Filed second middle stop later)
    (above : start ≤ middle) (below : middle ≤ stop) :
    Filed (first ++ second) start stop (earlier ++ later) where
  warnings := by rw [List.map_append, front.warnings, back.warnings]
  bounds := by
    intro report member
    rcases List.mem_append.mp member with inFront | inBack
    · have inside := front.bounds report inFront
      omega
    · have inside := back.bounds report inBack
      omega
  sorted := by
    refine List.pairwise_append.mpr ⟨front.sorted, back.sorted, ?_⟩
    intro left inFront right inBack
    exact Nat.lt_of_lt_of_le (front.bounds left inFront).2 (back.bounds right inBack).1

theorem widen (inside : Filed first start stop earlier) {low high : Nat} (below : low ≤ start)
    (above : stop ≤ high) : Filed first low high earlier := by
  refine ⟨inside.warnings, fun report member => ?_, inside.sorted⟩
  have between := inside.bounds report member
  omega

end Filed

/-- The report on the first step of a body and those behind it, if runs of the body end at a
transfer. -/
def Form.filedReports (construct : Construct) (owner : String) (last : Option Transfer)
    (position : Nat) (body : List Form) : List (Nat × UnreachableStep) :=
  let steps := Form.steps position body
  if construct.suspends then
    (PlacedStep.reportBehind owner last steps).toList ++ PlacedStep.reports owner steps
  else []

theorem Form.filedReports_step (construct : Construct) (owner : String) (last : Option Transfer)
    (position offset : Nat) (action : Step) (rest : List Form) :
    Form.filedReports construct owner last position (.step offset action :: rest)
      = (if construct.suspends then
            (last.map fun transfer =>
              (PlacedStep.mk position offset action).cutOffBy owner transfer).toList
          else [])
        ++ Form.filedReports construct owner action.transfer? (position + action.length) rest := by
  unfold Form.filedReports
  cases construct.suspends with
  | false => rfl
  | true =>
      simp only [if_true]
      rw [show Form.steps position (.step offset action :: rest)
          = ⟨position, offset, action⟩ :: Form.steps (position + action.length) rest from rfl,
        PlacedStep.reports_cons]
      cases last <;> rfl

section

variable {number : Nat → ExemplarId}

mutual

/-- The runs of inline calls do not end at a transfer. -/
theorem Expr.sites_complete : ∀ (value : Expr) (around : Nat) {construct : Construct}
    (position : Nat), construct.suspends = false →
    ∀ site ∈ value.sites around construct position,
      (site.exemplar number).construct.suspends = false
  | .constant _, _, _, _, _ => nofun
  | .call _ _ values, _, _, position, completes =>
      List.forall_mem_cons.mpr
        ⟨completes, Expr.sitesAll_complete values position (position + 2)⟩

theorem Expr.sitesAll_complete : ∀ (values : List Expr) (around position : Nat),
    ∀ site ∈ Expr.sitesAll around position values,
      (site.exemplar number).construct.suspends = false
  | [], _, _ => nofun
  | value :: rest, around, position =>
      List.forall_mem_append.mpr
        ⟨value.sites_complete around position rfl, Expr.sitesAll_complete rest around _⟩

end

theorem Step.sites_complete (action : Step) (around position : Nat) :
    ∀ site ∈ action.sites around position,
      (site.exemplar number).construct.suspends = false := by
  cases action with
  | transfer => exact nofun
  | assign assignment name value => exact value.sites_complete around _ rfl
  | call callee values => exact Expr.sitesAll_complete values around _

/-- There is nothing to report from inside of a step. -/
theorem Step.reports_sites (action : Step) (around position : Nat) :
    (action.sites around position).flatMap (Site.reports number) = [] := by
  rw [List.flatMap_eq_nil_iff]
  intro site member
  refine if_neg ?_
  rw [action.sites_complete around position site member]
  exact Bool.false_ne_true

mutual

/-- A construct whose runs end at a transfer is a definition. -/
theorem Form.sites_definition : ∀ (form : Form) (around position : Nat),
    ∀ site ∈ form.sites around position, (site.exemplar number).construct.suspends = true →
      ∃ offset head body, site.part = .definition offset head body
  | .empty, _, _ => nofun
  | .require _, _, _ => nofun
  | .step _ action, around, position => fun site member suspends => by
      rw [action.sites_complete around position site member] at suspends
      cases suspends
  | .define offset head body, _, position =>
      List.forall_mem_cons.mpr
        ⟨fun _ => ⟨offset, head, body, rfl⟩, Form.sitesAll_definition body position _⟩

theorem Form.sitesAll_definition : ∀ (forms : List Form) (around position : Nat),
    ∀ site ∈ Form.sitesAll around position forms,
      (site.exemplar number).construct.suspends = true →
        ∃ offset head body, site.part = .definition offset head body
  | [], _, _ => nofun
  | form :: rest, around, position =>
      List.forall_mem_append.mpr
        ⟨form.sites_definition around position, Form.sitesAll_definition rest around _⟩

end

theorem Form.programSites_definition (forms : List Form) :
    ∀ site ∈ Form.programSites forms, (site.exemplar number).construct.suspends = true →
      ∃ offset head body, site.part = .definition offset head body :=
  List.forall_mem_cons.mpr ⟨nofun, Form.sitesAll_definition forms 0 1⟩

/-- The report on a step whose last step was a transfer. -/
theorem Form.reportAfter_filed (construct : Construct) (owner : String) (last : Option Transfer)
    (position offset : Nat) (action : Step) :
    Filed
      (if construct.suspends then
        (last.map fun transfer =>
          (PlacedStep.mk position offset action).cutOffBy owner transfer).toList
      else [])
      position (position + 1)
      (Form.reportAfter construct owner last (.step offset action)) := by
  cases last with
  | none => exact (ite_self (c := construct.suspends) _).symm ▸ .nil _ _
  | some transfer =>
      rw [Form.reportAfter]
      cases construct.suspends with
      | false => exact .nil _ _
      | true =>
          refine ⟨rfl, List.forall_mem_singleton.mpr ⟨Nat.le_refl _, Nat.lt_succ_self _⟩, ?_⟩
          exact List.pairwise_singleton _ _

theorem Step.length_pos (action : Step) : 0 < action.length := by
  cases action <;> exact Nat.succ_pos _

mutual

/-- The reports from inside of a form are those of its constructs, in source order. -/
theorem Form.unreachable_filed : ∀ (form : Form) (around position : Nat),
    ∃ filed, Filed filed position (position + form.length) form.unreachable
      ∧ filed.Perm ((form.sites around position).flatMap (Site.reports number))
  | .empty, _, _ => ⟨[], .nil _ _, .nil⟩
  | .require _, _, _ => ⟨[], .nil _ _, .nil⟩
  | .step _ action, around, position =>
      ⟨[], .nil _ _, by rw [Form.sites, action.reports_sites]⟩
  | .define offset head body, around, position => by
      obtain ⟨filed, inside, same⟩ := Form.unreachableIn_filed head.construct head.name none body
        position (position + 1 + head.length)
      refine ⟨filed, inside.widen (by omega) ?_, same⟩
      rw [Form.length]
      omega

/-- The reports on a body and from inside its definitions are those on its steps and those of its
constructs, in source order. -/
theorem Form.unreachableIn_filed (construct : Construct) (owner : String) :
    ∀ (last : Option Transfer) (body : List Form) (around position : Nat),
    ∃ filed, Filed filed position (position + Form.lengthAll body)
        (Form.unreachableIn construct owner last body)
      ∧ filed.Perm (Form.filedReports construct owner last position body
        ++ (Form.sitesAll around position body).flatMap (Site.reports number))
  | last, [], _, position => by
      have nothing : Form.filedReports construct owner last position [] = [] := by
        unfold Form.filedReports
        cases last <;> exact ite_self []
      exact ⟨[], .nil _ _, by rw [nothing]; exact .nil⟩
  | last, form :: rest, around, position => by
      have below : position + form.length ≤ position + Form.lengthAll (form :: rest) := by
        rw [Form.lengthAll]
        omega
      have whole : position + form.length + Form.lengthAll rest
          = position + Form.lengthAll (form :: rest) := by
        rw [Form.lengthAll, Nat.add_assoc]
      obtain ⟨inner, inside, sameInside⟩ := Form.unreachable_filed form around position
      obtain ⟨later, behind, sameBehind⟩ := Form.unreachableIn_filed construct owner
        (form.lastTransfer last) rest around (position + form.length)
      rw [whole] at behind
      cases form with
      | empty | require | define =>
          refine ⟨inner ++ later, inside.append behind (Nat.le_add_right _ _) below, ?_⟩
          rw [Form.sitesAll, List.flatMap_append]
          exact (sameInside.append sameBehind).trans (List.perm_append_comm_assoc _ _ _)
      | step offset action =>
          have own := Form.reportAfter_filed construct owner last position offset action
          have step := own.widen (Nat.le_refl _) (Nat.add_le_add_left action.length_pos position)
          rw [Form.unreachableIn, Form.unreachable, List.append_nil]
          refine ⟨_ ++ later, step.append behind (Nat.le_add_right _ _) below, ?_⟩
          rw [Form.filedReports_step, Form.sitesAll, List.flatMap_append, Form.sites,
            action.reports_sites, List.nil_append, List.append_assoc]
          exact sameBehind.append_left _

end

end

/-! ## Steps on the tape -/

theorem Form.steps_cons (position : Nat) (form : Form) (rest : List Form) :
    Form.steps position (form :: rest)
      = (form.step? position).toList ++ Form.steps (position + form.length) rest :=
  Form.filterMap_cons_eq _ (position, form) _

section

variable {libraries : List String} {whole : List Token}

theorem Grammar.DerivesForm.opens {owner : Owner} {offset : Nat} {action : Step}
    {tokens : List Token} (derived : DerivesForm libraries owner (.step offset action) tokens) :
    tokens.head? = some ⟨.listOpen, offset⟩ := by
  cases derived <;> rfl

theorem Form.step?_standsOn {owner : Owner} {form : Form} {tokens rest : List Token}
    {position : Nat} (derived : DerivesForm libraries owner form tokens)
    (there : whole.drop position = tokens ++ rest) :
    ∀ step ∈ (form.step? position).toList,
      whole[step.position]? = some ⟨.listOpen, step.offset⟩ := by
  cases form with
  | empty | require | define => exact nofun
  | step offset action =>
      refine List.forall_mem_singleton.mpr ?_
      rw [← List.head?_drop, there, List.head?_append, derived.opens]
      rfl

/-- A step of a body stands where it is placed, and its offset is that of its bracket. -/
theorem Form.steps_standOn {owner : Owner} {forms : List Form} {tokens : List Token} :
    DerivesForms libraries owner forms tokens → ∀ {position : Nat} {rest : List Token},
      whole.drop position = tokens ++ rest →
      ∀ step ∈ Form.steps position forms, whole[step.position]? = some ⟨.listOpen, step.offset⟩
  | .none _, _, _, _ => nofun
  | .more head tail, position, _, there => by
      rw [List.append_assoc] at there
      have behind := drop_behind there
      rw [head.length] at behind
      rw [Form.steps_cons]
      exact List.forall_mem_append.mpr
        ⟨Form.step?_standsOn head there, Form.steps_standOn tail behind⟩

theorem Site.steps_standOn {site : Site} (stands : site.StandsOn libraries whole) :
    ∀ step ∈ site.steps, whole[step.position]? = some ⟨.listOpen, step.offset⟩ := by
  obtain ⟨tokens, rest, there, spelt⟩ := stands
  unfold Site.steps
  unfold Part.SpeltBy at spelt
  split
  · next body isProgram =>
      rw [isProgram] at spelt
      obtain ⟨opening, inside, closing, derived, rfl⟩ := spelt
      exact Form.steps_standOn derived (drop_inside [] there)
  · next offset head body isDefinition =>
      rw [isDefinition] at spelt
      obtain ⟨owner, derived⟩ := spelt
      cases derived with
      | define opening closing container spelt filled distinct forms =>
          have inner := drop_inside _ there
          rw [spelt.length, Nat.add_comm _ 1, ← Nat.add_assoc] at inner
          exact Form.steps_standOn forms inner
  · exact nofun

end

/-! ## Where runs end -/

theorem PlacedStep.isTransfer_instruction (number : Nat → ExemplarId) (step : PlacedStep) :
    (step.instruction number).isTransfer = step.transfer?.isSome := by
  obtain ⟨position, offset, action⟩ := step
  cases action with
  | transfer kind target => cases kind <;> rfl
  | assign kind name value => cases kind <;> rfl
  | call => rfl

/-- What stands behind a transfer makes no difference to a run that ends there. -/
theorem Setup.runInstructions_cut (setup : Setup) (caller : Caller) {transfer : Instruction}
    (isTransfer : transfer.isTransfer = true) (front rest : List Instruction) (last : Value) :
    setup.runInstructions caller true last (front ++ transfer :: rest)
      = setup.runInstructions caller true last (front ++ [transfer]) := by
  induction front generalizing last with
  | nil => simp only [List.nil_append, runInstructions, isTransfer, Bool.and_self, if_true]
  | cons first others inductionHypothesis =>
      simp only [List.cons_append, runInstructions, inductionHypothesis]

/-! ## Compiled programs -/

/-- The reports on the steps of a state or a handler. The first one is about the step where its
runs stop short, and there are more if transfers behind that have steps behind them. -/
structure Site.Reported (number : Nat → ExemplarId) (whole : List Token) (site : Site) : Prop where
  instructions :
    (site.exemplar number).instructions = site.steps.map (PlacedStep.instruction number)
  standing : ∀ step ∈ site.steps, whole[step.position]? = some ⟨.listOpen, step.offset⟩
  cut : ∀ front transfer rest, site.steps = front ++ transfer :: rest →
    transfer.transfer?.isSome = true → ∀ (setup : Setup) (caller : Caller) (last : Value),
      setup.runInstructions caller true last (site.exemplar number).instructions
        = setup.runInstructions caller true last
          ((front ++ [transfer]).map (PlacedStep.instruction number))
  first :
    (site.reports number).head?
      = (PlacedStep.cut? site.steps).map fun (transfer, step) =>
        step.cutOffBy (site.exemplar number).name transfer
  count :
    (site.reports number).length = site.steps.dropLast.countP fun step => step.transfer?.isSome
  once : (site.steps.dropLast.countP fun step => step.transfer?.isSome) ≤ 1 →
    site.reports number
      = ((PlacedStep.cut? site.steps).map fun (transfer, step) =>
        step.cutOffBy (site.exemplar number).name transfer).toList

/-- The warnings about a program are the reports on its states and handlers in source order. -/
structure Form.Reported (forms : List Form) (whole : List Token)
    (warnings : List UnreachableStep) : Prop where
  emitted : ∃ filed, Filed filed 1 (1 + Form.lengthAll forms) warnings
    ∧ filed.Perm ((Form.programSites forms).flatMap (Site.reports (Form.numberAt forms)))
  suspending : ∀ site ∈ Form.programSites forms,
    (site.exemplar (Form.numberAt forms)).construct.suspends = true →
      site.Reported (Form.numberAt forms) whole
  others : ∀ site ∈ Form.programSites forms,
    (site.exemplar (Form.numberAt forms)).construct.suspends = false →
      site.reports (Form.numberAt forms) = []

theorem Form.instructions_contents (number : Nat → ExemplarId) (position : Nat)
    (body : List Form) :
    (Form.contents number position body).instructions
      = (Form.steps position body).map (PlacedStep.instruction number) := by
  unfold Form.contents Form.steps
  rw [List.map_filterMap]
  refine List.filterMap_congr ?_
  rintro ⟨place, form⟩ _
  cases form <;> rfl

/-- A list whose length is at most one is its first member. -/
theorem eq_toList_head? {α : Type} {list : List α} (short : list.length ≤ 1) :
    list = list.head?.toList := by
  match list, short with
  | [], _ => rfl
  | [_], _ => rfl

theorem Site.reported {number : Nat → ExemplarId} {libraries : List String} {whole : List Token}
    {site : Site} {offset : Nat} {head : Head} {body : List Form}
    (isDefinition : site.part = .definition offset head body)
    (suspends : (site.exemplar number).construct.suspends = true)
    (stands : site.StandsOn libraries whole) : site.Reported number whole := by
  have reports : site.reports number
      = PlacedStep.reports (site.exemplar number).name site.steps := if_pos suspends
  have instructions : (site.exemplar number).instructions
      = site.steps.map (PlacedStep.instruction number) := by
    unfold Site.exemplar Site.steps
    rw [isDefinition]
    exact Form.instructions_contents number _ body
  refine
    { instructions := instructions
      standing := Site.steps_standOn stands
      cut := ?cut
      first := by rw [reports, PlacedStep.head?_reports]
      count := by rw [reports, PlacedStep.length_reports]
      once := ?once }
  case cut =>
    intro front transfer rest steps isTransfer setup caller last
    rw [instructions, steps, List.map_append, List.map_append, List.map_cons, List.map_singleton]
    rw [← PlacedStep.isTransfer_instruction number] at isTransfer
    exact setup.runInstructions_cut caller isTransfer _ _ last
  case once =>
    intro single
    rw [← @PlacedStep.length_reports (site.exemplar number).name] at single
    rw [reports, ← PlacedStep.head?_reports]
    exact eq_toList_head? single

theorem Form.reported {libraries : List String} {forms : List Form} {tokens : List Token}
    (derived : DerivesForms libraries Owner.root forms tokens) :
    Form.Reported forms (Tape.encloseTokens tokens) (Form.unreachableIn .root "" none forms) where
  emitted := Form.unreachableIn_filed .root "" none forms 0 1
  suspending := by
    intro site member suspends
    obtain ⟨offset, head, body, isDefinition⟩ :=
      Form.programSites_definition forms site member suspends
    exact Site.reported isDefinition suspends (Form.programSites_standOn derived site member)
  others := by
    intro site _ completes
    refine if_neg ?_
    rw [completes]
    exact Bool.false_ne_true

/-- With warnings enabled, a compiled program is warned about just where a step of a state or of
a handler stands right behind a transfer. -/
theorem Tape.compile_reports_unreachable {options : CompileOptions} {tape : Tape}
    {compilation : Compilation} (enabled : options.warnUnreachable = true)
    (compiled : tape.compile options = .ok compilation) :
    ∃ forms, DerivesForms options.libraries Owner.root forms tape.tokens
      ∧ compilation.program.Transcribes options.libraries tape forms
      ∧ Form.Reported forms tape.enclosed.tokens compilation.warnings := by
  obtain ⟨forms, read, rfl⟩ := Tape.compile_eq_ok_iff.mp compiled
  have derived := (Tape.forms_eq_ok_iff.mp read).2
  refine ⟨forms, derived, Program.ofForms_transcribes derived, ?_⟩
  simp only [enabled, if_true]
  exact Form.reported derived

/-- The tape of `(machine m (state main (goto main) (launch m) (set x 1)))`. -/
def Tape.twoTransfers : Tape :=
  Tape.ofTokens .empty
    (bracketed 0
      ([word "machine" 1, word "m" 9]
        ++ bracketed 11
          ([word "state" 12, word "main" 18]
            ++ bracketed 23 [word "goto" 24, word "main" 29] 33
            ++ bracketed 35 [word "launch" 36, word "m" 43] 44
            ++ bracketed 46 [word "set" 47, word "x" 51, ⟨.constant (.int 1), 53⟩] 54)
          55)
      56)

theorem Tape.compile_reports_unreachable_twoTransfers :
    (({} : CompileOptions).warnUnreachable = true)
      ∧ ∃ compilation, Tape.twoTransfers.compile {} = .ok compilation
        ∧ ∃ forms,
          DerivesForms ["io", "math", "time"] Owner.root forms Tape.twoTransfers.tokens
          ∧ compilation.program.Transcribes ["io", "math", "time"] Tape.twoTransfers forms
          ∧ Form.Reported forms Tape.twoTransfers.enclosed.tokens compilation.warnings := by
  have compiled : Tape.twoTransfers.compile {} = .ok _ := rfl
  exact ⟨rfl, _, compiled, Tape.compile_reports_unreachable rfl compiled⟩

/-- A state with a transfer behind its first one is warned about twice. -/
theorem Tape.compile_twoTransfers_warnings :
    ∃ compilation, Tape.twoTransfers.compile {} = .ok compilation
      ∧ (compilation.program.exemplar 2).construct = .state
      ∧ (compilation.program.exemplar 2).name = "main"
      ∧ (compilation.program.exemplar 2).instructions
        = [.goto "main", .launch "m", .set "x" (.constant (.int 1))]
      ∧ compilation.warnings = [⟨"main", .goto, 35⟩, ⟨"main", .launch, 46⟩]
      ∧ (compilation.warnings.filter fun warning => warning.owner = "main").length ≠ 1 := by
  have compiled : Tape.twoTransfers.compile {} = .ok _ := rfl
  exact ⟨_, compiled, rfl, rfl, rfl, rfl, by decide⟩

end MachineScript
