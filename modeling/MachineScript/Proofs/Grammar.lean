import MachineScript.Form.OfTokens

/-!
Contract: the grammar of programs, as derivations of token sequences.

Owns: one rule for each production, with the tree of forms that it spells, the
containers in which it may stand, and the names that a body may define once.

Does not own: how a tape is read. The rules say nothing of order, look-ahead
or errors; each lists its own containers and never asks the reader's tables.

A derivation leaves the offsets of all tokens free. A tree keeps the offset of
each opening bracket, so that sequence and tree determine each other.
-/

namespace MachineScript

def Token.word (text : String) (offset : Nat) : Token :=
  ⟨.constant (.atom text), offset⟩

def Token.bracketed (opening : Nat) (inside : List Token) (closing : Nat) : List Token :=
  ⟨.listOpen, opening⟩ :: inside ++ [⟨.listClose, closing⟩]

/-- The name that a form takes among the machines and states of its body. -/
def Form.machineName? : Form → Option String
  | .define _ (.machine name) _ => some name
  | .define _ (.state name) _ => some name
  | _ => none

/-- The name that a form takes among the functions of its body. -/
def Form.functionName? : Form → Option String
  | .define _ (.function _ name _) _ => some name
  | _ => none

namespace Grammar

open Form (Owner)
open Token (word bracketed)

/-- `NAME`: an atom that is no keyword. -/
def IsName (text : String) : Prop :=
  Keyword.ofText? text = none

/-- No two machines or states of a body share a name, and no two functions do. -/
structure Distinct (forms : List Form) : Prop where
  machines : (forms.filterMap Form.machineName?).Nodup
  functions : (forms.filterMap Form.functionName?).Nodup

mutual

/-- `value := CONST | '(' NAME value* ')'`. -/
inductive DerivesValue : Expr → List Token → Prop where
  | constant (value : Constant) (offset : Nat) :
      DerivesValue (.constant value) [⟨.constant value, offset⟩]
  | call {callee : String} {values : List Expr} {inside : List Token}
      (opening head closing : Nat) (isName : IsName callee)
      (arguments : DerivesValues values inside) :
      DerivesValue (.call opening callee values)
        (bracketed opening (word callee head :: inside) closing)

/-- `value*`. -/
inductive DerivesValues : List Expr → List Token → Prop where
  | none : DerivesValues [] []
  | more {value : Expr} {values : List Expr} {first rest : List Token}
      (head : DerivesValue value first) (tail : DerivesValues values rest) :
      DerivesValues (value :: values) (first ++ rest)

end

/-- `NAME*`, the parameters of a function. -/
inductive DerivesNames : List String → List Token → Prop where
  | none : DerivesNames [] []
  | more {name : String} {names : List String} {rest : List Token} (offset : Nat)
      (isName : IsName name) (tail : DerivesNames names rest) :
      DerivesNames (name :: names) (word name offset :: rest)

/-- What stands between the opening bracket of a definition and its body: `machine NAME`,
`state NAME`, `on NAME CONST`, `defun NAME ( NAME* )` or `defum NAME ( NAME* )`. -/
inductive DerivesHead : Head → List Token → Prop where
  | machine {name : String} (keyword place : Nat) (isName : IsName name) :
      DerivesHead (.machine name) [word "machine" keyword, word name place]
  | state {name : String} (keyword place : Nat) (isName : IsName name) :
      DerivesHead (.state name) [word "state" keyword, word name place]
  | handler {condition : String} (argument : Constant) (keyword place value : Nat)
      (isName : IsName condition) :
      DerivesHead (.handler condition argument)
        [word "on" keyword, word condition place, ⟨.constant argument, value⟩]
  | function {name : String} {parameters : List String} {inside : List Token} (isPure : Bool)
      (keyword place opening closing : Nat) (isName : IsName name)
      (names : DerivesNames parameters inside) :
      DerivesHead (.function isPure name parameters)
        (word (if isPure then "defun" else "defum") keyword :: word name place
          :: bracketed opening inside closing)

/-- The containers of a definition. -/
inductive Defines : Owner → Head → Prop where
  | machine {owner : Owner} {name : String}
      (container : owner.construct ∈ [.root, .machine, .state]) : Defines owner (.machine name)
  | state {owner : Owner} {name : String} (container : owner.construct ∈ [.machine, .state]) :
      Defines owner (.state name)
  | handler {owner : Owner} {condition : String} {argument : Constant}
      (container : owner.construct = .state) : Defines owner (.handler condition argument)
  | function {owner : Owner} {isPure : Bool} {name : String} {parameters : List String}
      (container : owner.construct ∈ [.root, .machine, .state]) :
      Defines owner (.function isPure name parameters)

mutual

/-- `form`, directly inside a container. -/
inductive DerivesForm (libraries : List String) : Owner → Form → List Token → Prop where
  | empty (owner : Owner) (opening closing : Nat) :
      DerivesForm libraries owner .empty (bracketed opening [] closing)
  | call {callee : String} {values : List Expr} {inside : List Token} (owner : Owner)
      (opening head closing : Nat) (isName : IsName callee)
      (arguments : DerivesValues values inside) :
      DerivesForm libraries owner (.step opening (.call callee values))
        (bracketed opening (word callee head :: inside) closing)
  | require {owner : Owner} {library : String} (opening keyword place closing : Nat)
      (container : owner.construct ∈ [.root, .machine]) (listed : library ∈ libraries) :
      DerivesForm libraries owner (.require library)
        (bracketed opening [word "require" keyword, word library place] closing)
  | launch {owner : Owner} {target : String} (opening keyword place closing : Nat)
      (container : owner.construct ∈ [.root, .machine, .state, .handler]
        ∨ owner = ⟨.function, false⟩)
      (isName : IsName target) :
      DerivesForm libraries owner (.step opening (.transfer .launch target))
        (bracketed opening [word "launch" keyword, word target place] closing)
  | goto {owner : Owner} {target : String} (opening keyword place closing : Nat)
      (container : owner.construct ∈ [.state, .handler]) (isName : IsName target) :
      DerivesForm libraries owner (.step opening (.transfer .goto target))
        (bracketed opening [word "goto" keyword, word target place] closing)
  | set {owner : Owner} {name : String} {value : Expr} {tokens : List Token}
      (opening keyword place closing : Nat)
      (container : owner.construct ∈ [.root, .machine, .state, .handler, .function])
      (isName : IsName name) (derived : DerivesValue value tokens) :
      DerivesForm libraries owner (.step opening (.assign .set name value))
        (bracketed opening (word "set" keyword :: word name place :: tokens) closing)
  | shared {owner : Owner} {name : String} {value : Expr} {tokens : List Token}
      (opening keyword place closing : Nat) (container : owner.construct = .machine)
      (isName : IsName name) (derived : DerivesValue value tokens) :
      DerivesForm libraries owner (.step opening (.assign .shared name value))
        (bracketed opening (word "shared" keyword :: word name place :: tokens) closing)
  | define {owner : Owner} {head : Head} {body : List Form} {front inside : List Token}
      (opening closing : Nat) (container : Defines owner head) (spelt : DerivesHead head front)
      (filled : head.construct = .handler → body ≠ []) (distinct : Distinct body)
      (forms : DerivesForms libraries ⟨head.construct, head.isPure⟩ body inside) :
      DerivesForm libraries owner (.define opening head body)
        (bracketed opening (front ++ inside) closing)

/-- `form*`, the body of a container. -/
inductive DerivesForms (libraries : List String) : Owner → List Form → List Token → Prop where
  | none (owner : Owner) : DerivesForms libraries owner [] []
  | more {owner : Owner} {form : Form} {forms : List Form} {first rest : List Token}
      (head : DerivesForm libraries owner form first)
      (tail : DerivesForms libraries owner forms rest) :
      DerivesForms libraries owner (form :: forms) (first ++ rest)

end

/-- `program := form*`, directly inside the program itself. -/
def DerivesProgram (libraries : List String) (tokens : List Token) : Prop :=
  ∃ forms, Distinct forms ∧ DerivesForms libraries Owner.root forms tokens

end Grammar

end MachineScript
