import MachineScript.Proofs.Grammar

/-!
Contract: where the constructs of a program stand on its tape.

Owns:
- how many tokens each part of a tree takes up;
- the constructs that have an exemplar of their own, each with the position of
  its opening bracket and of the bracket of the construct around it;
- that they are spelt there, in the order of their brackets.

Does not own: what the exemplar of a construct holds.

Positions count from the bracket in front of the whole tape. They are computed
from the tree alone; the derivation of a tape shows that its tokens agree.
-/

namespace MachineScript

open Grammar
open Form (Owner)
open Token (word bracketed)

/-! ## Lengths -/

mutual

/-- How many tokens a value takes up. -/
def Expr.length : Expr → Nat
  | .constant _ => 1
  | .call _ _ values => Expr.lengthAll values + 3

def Expr.lengthAll : List Expr → Nat
  | [] => 0
  | value :: rest => value.length + Expr.lengthAll rest

end

/-- How many tokens a step takes up, its brackets included. -/
def Step.length : Step → Nat
  | .transfer _ _ => 4
  | .assign _ _ value => value.length + 4
  | .call _ values => Expr.lengthAll values + 3

/-- How many tokens stand between the bracket of a definition and its body. -/
def Head.length : Head → Nat
  | .machine _ => 2
  | .state _ => 2
  | .handler _ _ => 3
  | .function _ _ parameters => parameters.length + 4

mutual

/-- How many tokens a form takes up, its brackets included. -/
def Form.length : Form → Nat
  | .empty => 2
  | .require _ => 4
  | .step _ action => action.length
  | .define _ head body => head.length + Form.lengthAll body + 2

def Form.lengthAll : List Form → Nat
  | [] => 0
  | form :: rest => form.length + Form.lengthAll rest

end

mutual

theorem Grammar.DerivesValue.length {value : Expr} {tokens : List Token} :
    DerivesValue value tokens → tokens.length = value.length
  | .constant _ _ => rfl
  | .call _ _ _ _ arguments => by
      simp only [bracketed, List.length_append, List.length_cons, List.length_nil, Expr.length,
        arguments.length]

theorem Grammar.DerivesValues.length {values : List Expr} {tokens : List Token} :
    DerivesValues values tokens → tokens.length = Expr.lengthAll values
  | .none => rfl
  | .more head tail => by
      rw [List.length_append, head.length, tail.length, Expr.lengthAll]

end

theorem Grammar.DerivesNames.length {names : List String} {tokens : List Token}
    (derived : DerivesNames names tokens) : tokens.length = names.length := by
  induction derived with
  | none => rfl
  | more offset isName tail inductionHypothesis =>
      rw [List.length_cons, List.length_cons, inductionHypothesis]

theorem Grammar.DerivesHead.length {head : Head} {tokens : List Token}
    (spelt : DerivesHead head tokens) : tokens.length = head.length := by
  cases spelt with
  | machine | state | handler => rfl
  | function isPure keyword place opening closing isName names =>
      simp only [bracketed, List.length_append, List.length_cons, List.length_nil, Head.length,
        names.length]

mutual

theorem Grammar.DerivesForm.length {libraries : List String} {owner : Owner} {form : Form}
    {tokens : List Token} : DerivesForm libraries owner form tokens → tokens.length = form.length
  | .empty _ _ _ => rfl
  | .require _ _ _ _ _ _ => rfl
  | .launch _ _ _ _ _ _ => rfl
  | .goto _ _ _ _ _ _ => rfl
  | .call _ _ _ _ _ arguments => by
      simp only [bracketed, List.length_append, List.length_cons, List.length_nil, Form.length,
        Step.length, arguments.length]
  | .set _ _ _ _ _ _ derived => by
      simp only [bracketed, List.length_append, List.length_cons, List.length_nil, Form.length,
        Step.length, derived.length]
  | .shared _ _ _ _ _ _ derived => by
      simp only [bracketed, List.length_append, List.length_cons, List.length_nil, Form.length,
        Step.length, derived.length]
  | .define _ _ _ spelt _ _ forms => by
      simp only [bracketed, List.length_append, List.length_cons, List.length_nil, Form.length,
        spelt.length, forms.length]

theorem Grammar.DerivesForms.length {libraries : List String} {owner : Owner} {forms : List Form}
    {tokens : List Token} :
    DerivesForms libraries owner forms tokens → tokens.length = Form.lengthAll forms
  | .none _ => rfl
  | .more head tail => by
      rw [List.length_append, head.length, tail.length, Form.lengthAll]

end

/-! ## Sites -/

/-- A construct that has an exemplar of its own. -/
inductive Part where
  | program (body : List Form)
  | definition (offset : Nat) (head : Head) (body : List Form)
  | call (construct : Construct) (offset : Nat) (callee : String) (arguments : List Expr)

/-- A construct, the position of its opening bracket, and that of the construct around it. -/
structure Site where
  position : Nat
  around : Option Nat
  part : Part

mutual

/-- The calls in a value at a position. -/
def Expr.sites (around : Nat) (construct : Construct) (position : Nat) : Expr → List Site
  | .constant _ => []
  | .call offset callee values =>
      ⟨position, some around, .call construct offset callee values⟩
        :: Expr.sitesAll position (position + 2) values

/-- The calls in arguments that start at a position. -/
def Expr.sitesAll (around position : Nat) : List Expr → List Site
  | [] => []
  | value :: rest =>
      value.sites around .argument position ++ Expr.sitesAll around (position + value.length) rest

end

/-- The calls in a step whose bracket is at a position: its value stands behind a keyword and a
name, its arguments behind a name. -/
def Step.sites (around position : Nat) : Step → List Site
  | .transfer _ _ => []
  | .assign _ _ value => value.sites around .assigned (position + 3)
  | .call _ values => Expr.sitesAll around (position + 2) values

mutual

/-- The constructs in a form at a position, itself included. -/
def Form.sites (around position : Nat) : Form → List Site
  | .empty => []
  | .require _ => []
  | .step _ action => action.sites around position
  | .define offset head body =>
      ⟨position, some around, .definition offset head body⟩
        :: Form.sitesAll position (position + 1 + head.length) body

/-- The constructs in forms that start at a position. -/
def Form.sitesAll (around position : Nat) : List Form → List Site
  | [] => []
  | form :: rest =>
      form.sites around position ++ Form.sitesAll around (position + form.length) rest

end

/-- The constructs of a program, the program itself first. -/
def Form.programSites (forms : List Form) : List Site :=
  ⟨0, none, .program forms⟩ :: Form.sitesAll 0 1 forms

/-! ## The order of sites -/

/-- Sites in the order of their brackets, all from one position up to another. -/
structure InOrder (sites : List Site) (start stop : Nat) : Prop where
  bounds : ∀ site ∈ sites, start ≤ site.position ∧ site.position < stop
  sorted : sites.Pairwise fun left right => left.position < right.position

namespace InOrder

variable {first second : List Site} {start middle stop : Nat}

theorem nil (start stop : Nat) : InOrder [] start stop :=
  ⟨nofun, List.Pairwise.nil⟩

theorem append (front : InOrder first start middle) (back : InOrder second middle stop)
    (above : start ≤ middle) (below : middle ≤ stop) : InOrder (first ++ second) start stop where
  bounds := by
    intro site member
    rcases List.mem_append.mp member with inFront | inBack
    · have inside := front.bounds site inFront
      omega
    · have inside := back.bounds site inBack
      omega
  sorted := by
    refine List.pairwise_append.mpr ⟨front.sorted, back.sorted, ?_⟩
    intro left inFront right inBack
    exact Nat.lt_of_lt_of_le (front.bounds left inFront).2 (back.bounds right inBack).1

theorem widen (inside : InOrder first start stop) {low high : Nat} (below : low ≤ start)
    (above : stop ≤ high) : InOrder first low high := by
  refine ⟨fun site member => ?_, inside.sorted⟩
  have between := inside.bounds site member
  omega

theorem cons (site : Site) (behind : InOrder second middle stop)
    (before : site.position < middle) (below : middle ≤ stop) :
    InOrder (site :: second) site.position stop where
  bounds := by
    refine List.forall_mem_cons.mpr ⟨⟨Nat.le_refl _, Nat.lt_of_lt_of_le before below⟩, ?_⟩
    exact (behind.widen (Nat.le_of_lt before) (Nat.le_refl stop)).bounds
  sorted :=
    List.pairwise_cons.mpr
      ⟨fun other member => Nat.lt_of_lt_of_le before (behind.bounds other member).1, behind.sorted⟩

end InOrder

mutual

theorem Expr.sites_inOrder (value : Expr) (around : Nat) (construct : Construct) (position : Nat) :
    InOrder (value.sites around construct position) position (position + value.length) :=
  match value with
  | .constant _ => .nil _ _
  | .call offset callee values => by
      have inner := Expr.sitesAll_inOrder values position (position + 2)
      have whole := InOrder.cons ⟨position, some around, .call construct offset callee values⟩ inner
        (show position < position + 2 by omega) (by omega)
      refine whole.widen (Nat.le_refl _) ?_
      rw [Expr.length]
      omega

theorem Expr.sitesAll_inOrder (values : List Expr) (around position : Nat) :
    InOrder (Expr.sitesAll around position values) position (position + Expr.lengthAll values) :=
  match values with
  | [] => .nil _ _
  | value :: rest => by
      have others := Expr.sitesAll_inOrder rest around (position + value.length)
      rw [Expr.lengthAll, ← Nat.add_assoc]
      exact (value.sites_inOrder around .argument position).append others (by omega) (by omega)

end

theorem Step.sites_inOrder (action : Step) (around position : Nat) :
    InOrder (action.sites around position) position (position + action.length) := by
  cases action with
  | transfer => exact .nil _ _
  | assign assignment name value =>
      refine (value.sites_inOrder around .assigned (position + 3)).widen (by omega) ?_
      rw [Step.length]
      omega
  | call callee values =>
      refine (Expr.sitesAll_inOrder values around (position + 2)).widen (by omega) ?_
      rw [Step.length]
      omega

mutual

theorem Form.sites_inOrder (form : Form) (around position : Nat) :
    InOrder (form.sites around position) position (position + form.length) :=
  match form with
  | .empty => .nil _ _
  | .require _ => .nil _ _
  | .step _ action => action.sites_inOrder around position
  | .define offset head body => by
      have inner := Form.sitesAll_inOrder body position (position + 1 + head.length)
      have whole := InOrder.cons ⟨position, some around, .definition offset head body⟩ inner
        (show position < position + 1 + head.length by omega) (by omega)
      refine whole.widen (Nat.le_refl _) ?_
      rw [Form.length]
      omega

theorem Form.sitesAll_inOrder (forms : List Form) (around position : Nat) :
    InOrder (Form.sitesAll around position forms) position (position + Form.lengthAll forms) :=
  match forms with
  | [] => .nil _ _
  | form :: rest => by
      have others := Form.sitesAll_inOrder rest around (position + form.length)
      rw [Form.lengthAll, ← Nat.add_assoc]
      exact (form.sites_inOrder around position).append others (by omega) (by omega)

end

theorem Form.programSites_inOrder (forms : List Form) :
    InOrder (Form.programSites forms) 0 (1 + Form.lengthAll forms) :=
  InOrder.cons ⟨0, none, .program forms⟩ (Form.sitesAll_inOrder forms 0 1) Nat.zero_lt_one
    (Nat.le_add_right 1 _)

/-! ## The spelling of sites -/

/-- Tokens spell a construct, brackets included. -/
def Part.SpeltBy (libraries : List String) (part : Part) (tokens : List Token) : Prop :=
  match part with
  | .program body =>
      ∃ opening inside closing, DerivesForms libraries Owner.root body inside
        ∧ tokens = bracketed opening inside closing
  | .definition offset head body =>
      ∃ owner, DerivesForm libraries owner (.define offset head body) tokens
  | .call _ offset callee values => DerivesValue (.call offset callee values) tokens

/-- The tokens at the position of a site spell its construct. -/
def Site.StandsOn (libraries : List String) (whole : List Token) (site : Site) : Prop :=
  ∃ tokens rest, whole.drop site.position = tokens ++ rest ∧ site.part.SpeltBy libraries tokens

section

variable {libraries : List String} {whole : List Token}

theorem drop_behind {position : Nat} {tokens rest : List Token}
    (there : whole.drop position = tokens ++ rest) :
    whole.drop (position + tokens.length) = rest := by
  rw [← List.drop_drop, there, List.drop_left]

/-- What stands inside brackets, behind a front of so many tokens. -/
theorem drop_inside (front : List Token) {position opening closing : Nat}
    {inside rest : List Token}
    (there : whole.drop position = bracketed opening (front ++ inside) closing ++ rest) :
    whole.drop (position + (front.length + 1)) = inside ++ ⟨.listClose, closing⟩ :: rest := by
  have split : bracketed opening (front ++ inside) closing ++ rest
      = (⟨.listOpen, opening⟩ :: front) ++ (inside ++ ⟨.listClose, closing⟩ :: rest) := by
    simp [bracketed]
  rw [split] at there
  exact drop_behind there

mutual

theorem Expr.sites_standOn {value : Expr} {tokens : List Token} : DerivesValue value tokens →
    ∀ {around position : Nat} {construct : Construct} {rest : List Token},
      whole.drop position = tokens ++ rest →
      ∀ site ∈ value.sites around construct position, site.StandsOn libraries whole
  | .constant _ _, _, _, _, _, _ => nofun
  | .call opening head closing isName arguments, _, position, _, _, there => by
      refine List.forall_mem_cons.mpr
        ⟨⟨_, _, there, .call opening head closing isName arguments⟩, ?_⟩
      exact Expr.sitesAll_standOn arguments (drop_inside [_] there)

theorem Expr.sitesAll_standOn {values : List Expr} {tokens : List Token} :
    DerivesValues values tokens →
    ∀ {around position : Nat} {rest : List Token}, whole.drop position = tokens ++ rest →
      ∀ site ∈ Expr.sitesAll around position values, site.StandsOn libraries whole
  | .none, _, _, _, _ => nofun
  | .more head tail, _, _, _, there => by
      rw [List.append_assoc] at there
      have behind := drop_behind there
      rw [head.length] at behind
      exact List.forall_mem_append.mpr
        ⟨Expr.sites_standOn head there, Expr.sitesAll_standOn tail behind⟩

end

mutual

theorem Form.sites_standOn {owner : Owner} {form : Form} {tokens : List Token} :
    DerivesForm libraries owner form tokens →
    ∀ {around position : Nat} {rest : List Token}, whole.drop position = tokens ++ rest →
      ∀ site ∈ form.sites around position, site.StandsOn libraries whole
  | .empty _ _ _, _, _, _, _ => nofun
  | .require _ _ _ _ _ _, _, _, _, _ => nofun
  | .launch _ _ _ _ _ _, _, _, _, _ => nofun
  | .goto _ _ _ _ _ _, _, _, _, _ => nofun
  | .call _ _ _ _ _ arguments, _, _, _, there =>
      Expr.sitesAll_standOn arguments (drop_inside [_] there)
  | .set _ _ _ _ _ _ derived, _, _, _, there =>
      Expr.sites_standOn derived (drop_inside [_, _] there)
  | .shared _ _ _ _ _ _ derived, _, _, _, there =>
      Expr.sites_standOn derived (drop_inside [_, _] there)
  | .define opening closing container spelt filled distinct forms, _, position, _, there => by
      have inner := drop_inside _ there
      rw [spelt.length, Nat.add_comm _ 1, ← Nat.add_assoc] at inner
      refine List.forall_mem_cons.mpr ⟨⟨_, _, there, owner, ?_⟩, Form.sitesAll_standOn forms inner⟩
      exact .define opening closing container spelt filled distinct forms

theorem Form.sitesAll_standOn {owner : Owner} {forms : List Form} {tokens : List Token} :
    DerivesForms libraries owner forms tokens →
    ∀ {around position : Nat} {rest : List Token}, whole.drop position = tokens ++ rest →
      ∀ site ∈ Form.sitesAll around position forms, site.StandsOn libraries whole
  | .none _, _, _, _, _ => nofun
  | .more head tail, _, _, _, there => by
      rw [List.append_assoc] at there
      have behind := drop_behind there
      rw [head.length] at behind
      exact List.forall_mem_append.mpr
        ⟨Form.sites_standOn head there, Form.sitesAll_standOn tail behind⟩

end

end

/-- Every construct of a program stands on the tape, inside its outer brackets, where the tree
places it. -/
theorem Form.programSites_standOn {libraries : List String} {forms : List Form}
    {tokens : List Token} (derived : DerivesForms libraries Owner.root forms tokens) :
    ∀ site ∈ Form.programSites forms, site.StandsOn libraries (Tape.encloseTokens tokens) := by
  refine List.forall_mem_cons.mpr ⟨⟨Tape.encloseTokens tokens, [], ?_, ?_⟩, ?_⟩
  · exact (List.append_nil _).symm
  · exact ⟨_, tokens, _, derived, rfl⟩
  · exact Form.sitesAll_standOn derived rfl

end MachineScript
