import AlgoTrade.Sandbox.SafeExec

/-! # Attribute names in accepted code

The constructs that reach an attribute by a name in the source are attribute
expressions, from-imports and class patterns.

* `Unchecked`: a banned name where the walk has no check for it: a keyword of a
  class pattern, a from-import without a module, a frame attribute in a from-import.
* `checkNode_none_iff`: for a node that passes, its names are safe but for these.
* `namesSafe_iff`: for accepted code, the same of the whole tree. -/

namespace AlgoTrade.Sandbox

/-! ## Names in a tree -/

/-- The attribute names a node fixes. -/
def fixedNames : Node → List String
  | .attributeExpr _ attr _ => [attr]
  | .importFrom _ names => names.map Alias.name
  | .matchClass _ _ kwdAttrs _ => kwdAttrs
  | _ => []

/-- A dunder outside the module-safe set, a frame attribute, or a dangerous method. -/
def Banned (name : String) : Prop :=
  isDunder name = true ∧ name ∉ safeModuleDunderAttrs ∨ name ∈ dangerousFrameAttrs ∨
    name ∈ dangerousMethodNames

instance (name : String) : Decidable (Banned name) := inferInstanceAs (Decidable (_ ∨ _))

/-- No node of the tree fixes a banned name. -/
def NamesSafe (tree : Node) : Prop :=
  ∀ n, tree.Within n → ∀ name ∈ fixedNames n, ¬ Banned name

/-- The node fixes a banned name, where no check looks for it. -/
def Unchecked : Node → Prop
  | .matchClass _ _ kwdAttrs _ => ∃ name ∈ kwdAttrs, Banned name
  | .importFrom module names =>
    if module.getD "" = "" then ∃ a ∈ names, Banned a.name
    else ∃ a ∈ names, a.name ∈ dangerousFrameAttrs
  | _ => False

instance decidableUnchecked : DecidablePred Unchecked := fun n => by
  cases n with
  | matchClass cls patterns kwdAttrs kwdPatterns =>
    exact inferInstanceAs (Decidable (∃ name ∈ kwdAttrs, Banned name))
  | importFrom module names =>
    exact inferInstanceAs (Decidable (if module.getD "" = "" then ∃ a ∈ names, Banned a.name
      else ∃ a ∈ names, a.name ∈ dangerousFrameAttrs))
  | _ => exact isFalse id

/-! ## A node that passes -/

theorem errorIf_eq_none {condition : Bool} {message : String} :
    errorIf condition message = none ↔ condition = false := by
  unfold errorIf
  cases condition with
  | true => simp
  | false => simp

/-- The checks of an attribute. -/
theorem checkAttribute_safe {value : Node} {attr : String} {ctx : AttributeContext}
    (h : checkAttribute value attr ctx = none) : ¬ Banned attr := by
  have hall := List.findSome?_eq_none_iff.mp h
  simp only [List.forall_mem_cons, id] at hall
  obtain ⟨hdunder, hmethod, hframe, -⟩ := hall
  rw [errorIf_eq_none, Bool.decide_or, Bool.or_eq_false_iff] at hdunder
  rintro (hbanned | hbanned | hbanned)
  · simp [hbanned.1, hbanned.2] at hdunder
  · exact of_decide_eq_false (errorIf_eq_none.mp hframe) hbanned
  · exact of_decide_eq_false (errorIf_eq_none.mp hmethod) hbanned

theorem startsWith_of_isDunder {name : String} (h : isDunder name = true) :
    startsWith name "_" = true := by
  obtain ⟨hstart, -⟩ := Bool.and_eq_true_iff.mp h
  have hprefix : "__".toList <+: name.toList := List.isPrefixOf_iff_prefix.mp hstart
  have hone : "_".toList <+: "__".toList := by decide
  exact List.isPrefixOf_iff_prefix.mpr (hone.trans hprefix)

/-- A name imported from a module is a banned one only for a frame attribute. -/
theorem checkImportedName_safe {module : String} {a : Alias}
    (h : checkImportedName module a = none) :
    Banned a.name ↔ a.name ∈ dangerousFrameAttrs := by
  have hall := List.findSome?_eq_none_iff.mp h
  simp only [List.forall_mem_cons, id] at hall
  obtain ⟨-, hprivate, -, -, hmethod, -⟩ := hall
  have hpublic := errorIf_eq_none.mp hprivate
  constructor
  · rintro (hbanned | hbanned | hbanned)
    · rw [startsWith_of_isDunder hbanned.1] at hpublic
      cases hpublic
    · exact hbanned
    · exact absurd hbanned (of_decide_eq_false (errorIf_eq_none.mp hmethod))
  · exact fun hframe => .inr (.inl hframe)

/-- **A node that passes** fixes a banned name only where no check looks for it. -/
theorem checkNode_none_iff {py : Interpreter} {n : Node} (h : checkNode py n = none) :
    (∀ name ∈ fixedNames n, ¬ Banned name) ↔ ¬ Unchecked n := by
  cases n with
  | attributeExpr value attr ctx =>
    have hsafe := checkAttribute_safe h
    simp [fixedNames, Unchecked, hsafe]
  | matchClass cls patterns kwdAttrs kwdPatterns => simp [fixedNames, Unchecked]
  | importFrom module names =>
    by_cases hmodule : module.getD "" = ""
    · simp [fixedNames, Unchecked, hmodule]
    · cases module with
      | none => exact absurd rfl hmodule
      | some module =>
        have hne : ¬ module = "" := hmodule
        have hnames : ∀ a ∈ names, checkImportedName module a = none := by
          unfold checkNode at h
          dsimp only at h
          rw [if_neg hne, Option.or_eq_none_iff] at h
          exact List.findSome?_eq_none_iff.mp h.2
        dsimp only [fixedNames, Unchecked]
        rw [if_neg hmodule, List.forall_mem_map]
        constructor
        · rintro hall ⟨a, ha, hframe⟩
          exact hall a ha ((checkImportedName_safe (hnames a ha)).mpr hframe)
        · exact fun hnone a ha hbanned =>
            hnone ⟨a, ha, (checkImportedName_safe (hnames a ha)).mp hbanned⟩
  | _ => simp [fixedNames, Unchecked]

/-! ## Accepted code -/

/-- **The ban in accepted code** holds exactly when no node fixes a banned name where
no check looks for it. -/
theorem namesSafe_iff {py : Interpreter} {code : String} {tree : Node}
    (hparse : py.parse code = .ok tree) (haccepted : validateCodeSafety py code = none) :
    NamesSafe tree ↔ ∀ n, tree.Within n → ¬ Unchecked n := by
  have hnodes : ∀ n, tree.Within n → checkNode py n = none := by
    unfold validateCodeSafety at haccepted
    split at haccepted
    · cases haccepted
    · rw [hparse] at haccepted
      exact fun n hn => List.findSome?_eq_none_iff.mp haccepted n (mem_walk.mpr hn)
  exact forall_congr' fun n => forall_congr' fun hn => checkNode_none_iff (hnodes n hn)

/-! ## Two programs -/

namespace Programs

/-- An interpreter that knows the text of one program, on plain text. -/
def interpreter (code : String) (tree : Node) : Interpreter where
  isWord c := c.isAlphanum || c = '_'
  isSpace := Char.isWhitespace
  lower := String.toLower
  parse text := if text = code then .ok tree else .error .syntaxError

theorem interpreter_parse (code : String) (tree : Node) :
    (interpreter code tree).parse code = .ok tree := if_pos rfl

def meanCode : String := "output = close.mean()\n"

def meanTree : Node :=
  .module [.assign [.name "output"]
    (.call (.attributeExpr (.name "close") "mean" .load) [] [])]

/-- The frame of a generator, by a class pattern. -/
def patternCode : String := "match (t for t in []):\n case object(gi_frame=output): pass\n"

def patternTree : Node :=
  .module [.matchStmt
    (.generatorExp (.name "t") [.comprehension (.name "t") (.list []) []])
    [.matchCase (.matchClass (.name "object") [] ["gi_frame"] [.matchAs none]) none [.passStmt]]]

end Programs

/-- Code with one attribute. -/
theorem namesSafe_iff_mean : NamesSafe Programs.meanTree := by
  have haccepted : validateCodeSafety
      (Programs.interpreter Programs.meanCode Programs.meanTree) Programs.meanCode = none := by
    decide +kernel
  have hchecked : ∀ n ∈ walk Programs.meanTree, ¬ Unchecked n := by decide +kernel
  exact (namesSafe_iff (Programs.interpreter_parse ..) haccepted).mpr fun n hn => hchecked n (mem_walk.mpr hn)

/-- A class pattern reads what an attribute expression may not. -/
theorem patternKeywords_accepted :
    validateCodeSafety (Programs.interpreter Programs.patternCode Programs.patternTree)
        Programs.patternCode = none ∧
      (Programs.interpreter Programs.patternCode Programs.patternTree).parse
        Programs.patternCode = .ok Programs.patternTree ∧
      ¬ NamesSafe Programs.patternTree := by
  refine ⟨by decide +kernel, Programs.interpreter_parse .., fun hsafe => ?_⟩
  have hbanned : ∃ n ∈ walk Programs.patternTree, ∃ name ∈ fixedNames n, Banned name := by
    decide +kernel
  obtain ⟨n, hn, name, hname, hbanned⟩ := hbanned
  exact hsafe n (mem_walk.mp hn) name hname hbanned

end AlgoTrade.Sandbox
