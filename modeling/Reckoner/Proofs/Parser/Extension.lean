import Reckoner.Proofs.Parser.Agreement
import Reckoner.Proofs.Parser.Resolution
import Reckoner.Proofs.Registry.Registration

/-!
# Conservative extensions

A registry with one definition more reads other texts too, but it should read the
old ones as before.  A name that is new can spoil that in two ways: the lexer
takes a longer symbol or takes a function for an operator, and the parser goes on
where it used to stop.  Neither happens if the definition is a function, or an
operator whose names are words that named nothing so far (`Fresh`).

`Conservative registry next` collects what the readers need of such an extension.
It is followed through the stages of reading a text:

* `Conservative.scan`: what is a lexeme stays one;
* `Conservative.isPostfix_of_next`, `Conservative.isBinary_of_next`: a token that
  does not go on with an expression still does not, because it names an operator
  already and gets no new role;
* `Conservative.reads`: the same tokens are read as the same tree;
* `Conservative.evaluate`: the names in the tree stand for the same rules.
-/

namespace Reckoner

namespace Registry

variable {registry next : Registry} {definition : Definition} {role : Role} {name op : Text}
  {token : Token} {rest text : Text}

/-! ## Known operators -/

/-- The registry has every operator that the token names, in any role. -/
def Knows (registry : Registry) (token : Token) : Prop :=
  ∀ op, token = .operator op → lower op ∈ registry.operatorNames

theorem knows_of_scan (hreach : registry.Reachable) (hscan : Scan registry rest token text) :
    registry.Knows token := by
  rintro op rfl
  cases hscan with
  | operatorWord _ _ hoperator => exact (isOperator_iff hreach).mp hoperator
  | symbol _ _ _ hfind =>
      have hname := ((find?_identifiers_eq_some_iff hreach).mp hfind).1
      exact (isOperator_iff hreach).mp (isOperator_of_mem hreach hname)

theorem knows_of_lexes (hreach : registry.Reachable) {cursor : Cursor} {lexemes : List Lexeme}
    (hlexes : Cursor.Lexes registry cursor lexemes) :
    ∀ lexeme ∈ lexemes, registry.Knows lexeme.token := by
  induction hlexes with
  | ended => simp
  | lexeme hnext _ _ ih =>
      obtain ⟨text, hscan, _⟩ := Cursor.next_eq_ok_iff.mp hnext
      exact List.forall_mem_cons.mpr ⟨knows_of_scan hreach hscan, ih⟩

/-! ## Extensions -/

/-- A definition in normal form that takes nothing from what is read without it:
a function, or an operator whose names are words that stand for no operator and
no function. -/
def Fresh (registry : Registry) (definition : Definition) : Prop :=
  definition.role = .function ∨
    ∀ name ∈ definition.names, (∀ c ∈ name, isLetter c = true) ∧
      registry.isOperator name = false ∧ registry.findFunction? name = none

/-- A reachable registry that goes on from another, in such a way that what could
be read before is read alike. -/
structure Conservative (registry next : Registry) : Prop where
  reachable : registry.Reachable
  reachable_next : next.Reachable
  /-- What is found is found as before. -/
  find?_eq {role : Role} {name : Text} :
    (registry.find? role name).isSome = true → next.find? role name = registry.find? role name
  /-- New names of operators are words, and not names of functions. -/
  word_of_new {name : Text} : name ∈ next.operatorNames → name ∉ registry.operatorNames →
    (∀ c ∈ name, isLetter c = true) ∧ name ∉ registry.names .function
  /-- Names of operators get no other role of an operator. -/
  role_of_old {role : Role} {name : Text} : role ≠ .function → name ∈ registry.operatorNames →
    name ∈ next.names role → name ∈ registry.names role

/-- **The extension by a fresh definition is conservative.** -/
theorem conservative_insert (hreach : registry.Reachable)
    (hnext : (registry.insert definition).Reachable) (hadmits : registry.Admits definition)
    (hfresh : registry.Fresh definition) : registry.Conservative (registry.insert definition) where
  reachable := hreach
  reachable_next := hnext
  find?_eq := by
    intro role name hsome
    rw [find?_insert hreach.coherent hadmits, if_neg]
    rintro ⟨rfl, hname⟩
    exact (hadmits.2 _ hname).2
      (hreach.coherent.mem_names_index.mpr ((find?_isSome_iff hreach).mp hsome))
  word_of_new := by
    intro name hname hnew
    have hold : ∀ role, name ∈ (registry.insert definition).names role → role ≠ .function →
        name ∉ registry.names role → definition.role ≠ .function ∧ name ∈ definition.names := by
      intro role hmem hrole hnot
      obtain ⟨hdefinition, hmem⟩ := (mem_names_insert.mp hmem).resolve_left hnot
      exact ⟨hdefinition ▸ hrole, hmem⟩
    have hdefinition : definition.role ≠ .function ∧ name ∈ definition.names := by
      rcases mem_operatorNames.mp hname with hbinary | ⟨fixity, hunary⟩
      · exact hold _ hbinary (by simp) fun h => hnew (mem_operatorNames.mpr (.inl h))
      · exact hold _ hunary (by simp) fun h => hnew (mem_operatorNames.mpr (.inr ⟨_, h⟩))
    obtain ⟨hletters, _, hfunction⟩ := hfresh.resolve_left hdefinition.1 name hdefinition.2
    refine ⟨hletters, fun hmem => ?_⟩
    have hsome := findFunction?_isSome_of_mem hreach hmem
    simp [hfunction] at hsome
  role_of_old := by
    intro role name hrole hold hmem
    refine (mem_names_insert.mp hmem).resolve_right fun ⟨hdefinition, hname⟩ => ?_
    have hnot := (hfresh.resolve_left (hdefinition ▸ hrole) name hname).2.1
    simp [isOperator_of_mem hreach hold] at hnot

namespace Conservative

/-! ## Look-up -/

theorem mem_names (hext : registry.Conservative next) (hname : name ∈ registry.names role) :
    name ∈ next.names role := by
  have hlower := lower_of_mem_names hext.reachable hname
  have hsome := (find?_isSome_iff hext.reachable).mpr (hlower.symm ▸ hname)
  rw [← hlower, ← find?_isSome_iff hext.reachable_next, hext.find?_eq hsome]
  exact hsome

theorem mem_operatorNames (hext : registry.Conservative next)
    (hname : name ∈ registry.operatorNames) : name ∈ next.operatorNames := by
  rw [Registry.mem_operatorNames] at hname ⊢
  exact hname.imp hext.mem_names fun ⟨fixity, hunary⟩ => ⟨fixity, hext.mem_names hunary⟩

theorem findBinary?_eq (hext : registry.Conservative next)
    (hsome : (registry.findBinary? name).isSome = true) :
    next.findBinary? name = registry.findBinary? name :=
  findBinary?_congr (hext.find?_eq (by simpa [find?] using hsome))

theorem findUnary?_eq (hext : registry.Conservative next) {fixity : Fixity}
    (hsome : (registry.findUnary? fixity name).isSome = true) :
    next.findUnary? fixity name = registry.findUnary? fixity name :=
  findUnary?_congr (hext.find?_eq (by simpa [find?] using hsome))

theorem findFunction?_eq (hext : registry.Conservative next)
    (hsome : (registry.findFunction? name).isSome = true) :
    next.findFunction? name = registry.findFunction? name :=
  findFunction?_congr (hext.find?_eq (by simpa [find?] using hsome))

/-- The look-up of an operator in any role of operators is as before, found or
not. -/
theorem find?_eq_of_operator (hext : registry.Conservative next) (hrole : role ≠ .function)
    (hname : lower name ∈ registry.operatorNames) :
    next.find? role name = registry.find? role name := by
  by_cases hsome : (registry.find? role name).isSome = true
  · exact hext.find?_eq hsome
  have hnone : ¬ (next.find? role name).isSome = true := fun hnext =>
    hsome ((find?_isSome_iff hext.reachable).mpr
      (hext.role_of_old hrole hname ((find?_isSome_iff hext.reachable_next).mp hnext)))
  rw [Option.not_isSome_iff_eq_none.mp hsome, Option.not_isSome_iff_eq_none.mp hnone]

/-! ## Lexemes -/

/-- A symbol is matched as before: new names are words, and begin with letters. -/
theorem find?_identifiers_eq (hext : registry.Conservative next) {c : Char}
    (hletter : isLetter c = false)
    (hfind : registry.identifiers.find? (·.isPrefixOf (c :: rest)) = some name) :
    next.identifiers.find? (·.isPrefixOf (c :: rest)) = some name := by
  obtain ⟨hname, hbegins, hlongest⟩ := (find?_identifiers_eq_some_iff hext.reachable).mp hfind
  refine (find?_identifiers_eq_some_iff hext.reachable_next).mpr
    ⟨hext.mem_operatorNames hname, hbegins, fun other hother hprefix => ?_⟩
  by_cases hold : other ∈ registry.operatorNames
  · exact hlongest other hold hprefix
  · have hsome := ne_nil_of_operatorNameFault
      (operatorNameFault_of_mem hext.reachable_next hother)
    obtain ⟨first, later, rfl⟩ := List.exists_cons_of_ne_nil hsome
    obtain ⟨rfl, _⟩ := List.cons_prefix_cons.mp hprefix
    have hfirst := (hext.word_of_new hother hold).1 first List.mem_cons_self
    simp [hletter] at hfirst

/-- The name of a function does not become that of an operator. -/
theorem isOperator_eq_false (hext : registry.Conservative next)
    (hoperator : registry.isOperator name = false)
    (hfunction : (registry.findFunction? name).isSome = true) : next.isOperator name = false := by
  refine Bool.eq_false_iff.mpr fun hnext => ?_
  have hold : lower name ∉ registry.operatorNames := fun hmem => by
    simp [(isOperator_iff hext.reachable).mpr hmem] at hoperator
  exact (hext.word_of_new ((isOperator_iff hext.reachable_next).mp hnext) hold).2
    ((findFunction?_isSome_iff hext.reachable).mp hfunction)

/-- **What is a lexeme stays one.** -/
theorem scan (hext : registry.Conservative next) (hscan : Scan registry rest token text) :
    Scan next rest token text := by
  cases hscan with
  | ended => exact .ended
  | numeral hdigit hvalue hfinite => exact .numeral hdigit hvalue hfinite
  | operatorWord hletter hword hoperator =>
      refine .operatorWord hletter hword ((isOperator_iff hext.reachable_next).mpr ?_)
      exact hext.mem_operatorNames ((isOperator_iff hext.reachable).mp hoperator)
  | functionWord hletter hword hoperator hfunction =>
      exact .functionWord hletter hword (hext.isOperator_eq_false hoperator hfunction)
        (hext.findFunction?_eq hfunction ▸ hfunction)
  | leftParen => exact .leftParen
  | rightParen => exact .rightParen
  | comma => exact .comma
  | symbol hdigit hletter hpunctuation hfind =>
      exact .symbol hdigit hletter hpunctuation (hext.find?_identifiers_eq hletter hfind)

theorem lexes (hext : registry.Conservative next) {cursor : Cursor} {lexemes : List Lexeme}
    (hlexes : Cursor.Lexes registry cursor lexemes) : Cursor.Lexes next cursor lexemes := by
  have hstep {cursor after : Cursor} {lexeme : Lexeme}
      (hnext : cursor.next registry = (.ok lexeme, after)) :
      cursor.next next = (.ok lexeme, after) := by
    obtain ⟨text, hscan, hspan⟩ := Cursor.next_eq_ok_iff.mp hnext
    exact Cursor.next_eq_ok_iff.mpr ⟨text, hext.scan hscan, hspan⟩
  induction hlexes with
  | ended hnext => exact .ended (hstep hnext)
  | lexeme hnext hmore _ ih => exact .lexeme (hstep hnext) hmore ih

/-! ## Reading -/

/-- A token goes on with an expression only if it did so before. -/
theorem isPostfix_of_next (hext : registry.Conservative next) (hknows : registry.Knows token)
    (hpost : next.IsPostfix token) : registry.IsPostfix token := by
  obtain ⟨op, rfl, hsome⟩ := hpost
  have hsame : next.findUnary? .postfixed op = registry.findUnary? .postfixed op :=
    findUnary?_congr (hext.find?_eq_of_operator (by simp) (hknows op rfl))
  exact ⟨op, rfl, hsame ▸ hsome⟩

theorem isBinary_of_next (hext : registry.Conservative next) (hknows : registry.Knows token)
    {minimum : Int} (hbinary : next.IsBinary minimum token) : registry.IsBinary minimum token := by
  obtain ⟨op, operator, rfl, hfind, hlevel⟩ := hbinary
  have hsame : next.findBinary? op = registry.findBinary? op :=
    findBinary?_congr (hext.find?_eq_of_operator (by simp) (hknows op rfl))
  exact ⟨op, operator, rfl, hsame ▸ hfind, hlevel⟩

/-- **Tokens are read as before.** -/
theorem reads (hext : registry.Conservative next) {budget : Nat} {phrase : Phrase}
    {ts later : List Token} (hreads : registry.Reads budget phrase ts later)
    (hknows : ∀ token ∈ ts, registry.Knows token) : next.Reads budget phrase ts later := by
  -- the tokens behind the first part of a phrase are among its tokens
  have hrest {budget : Nat} {phrase : Phrase} {ts middle : List Token}
      (hfirst : registry.Reads budget phrase ts middle)
      (hknows : ∀ token ∈ ts, registry.Knows token) : ∀ token ∈ middle, registry.Knows token :=
    fun token htoken => hknows token (hfirst.subset htoken)
  have htail {token : Token} {ts : List Token} (hknows : ∀ t ∈ token :: ts, registry.Knows t) :
      ∀ t ∈ ts, registry.Knows t :=
    (List.forall_mem_cons.mp hknows).2
  induction hreads with
  | expression hleft _ ihleft ihchain =>
      exact .expression (ihleft hknows) (ihchain (hrest hleft hknows))
  | chainEnd hstop =>
      exact .chainEnd fun hbinary => hstop
        (hext.isBinary_of_next (hknows _ List.mem_cons_self) hbinary)
  | chain hfind hlevel hright _ ihright ihchain =>
      have hknows := htail hknows
      exact .chain ((hext.findBinary?_eq (Option.isSome_of_eq_some hfind)).trans hfind) hlevel
        (ihright hknows) (ihchain (hrest hright hknows))
  | primary hoperand _ ihoperand ihpostfixes =>
      exact .primary (ihoperand hknows) (ihpostfixes (hrest hoperand hknows))
  | postfixesEnd hstop =>
      exact .postfixesEnd fun hpost => hstop
        (hext.isPostfix_of_next (hknows _ List.mem_cons_self) hpost)
  | postfixes hfind _ ihpostfixes =>
      exact .postfixes (hext.findUnary?_eq hfind ▸ hfind) (ihpostfixes (htail hknows))
  | number => exact .number
  | group _ ihinner => exact .group (ihinner (htail hknows))
  | prefixed hfind _ ihoperand =>
      exact .prefixed ((hext.findUnary?_eq (Option.isSome_of_eq_some hfind)).trans hfind)
        (ihoperand (htail hknows))
  | call hfind harity _ ihargs =>
      exact .call ((hext.findFunction?_eq (Option.isSome_of_eq_some hfind)).trans hfind) harity
        (ihargs (htail (htail hknows)))
  | noArguments => exact .noArguments
  | arguments hfirst _ ihfirst ihothers =>
      exact .arguments (ihfirst hknows) (ihothers (hrest hfirst hknows))
  | othersEnd hstop => exact .othersEnd hstop
  | others hfirst _ ihfirst ihothers =>
      have hknows := htail hknows
      exact .others (ihfirst hknows) (ihothers (hrest hfirst hknows))

/-! ## Texts -/

theorem parse (hext : registry.Conservative next) {limit : Nat} {source : Text} {e : Expr}
    (hparse : registry.parse limit source = .ok e) : next.parse limit source = .ok e := by
  obtain ⟨lexemes, hlexes, hreads, hdepth⟩ := (parse_eq_ok_iff hext.reachable).mp hparse
  refine (parse_eq_ok_iff hext.reachable_next).mpr
    ⟨lexemes, hext.lexes hlexes, hext.reads hreads ?_, hdepth⟩
  intro token htoken
  rcases List.mem_append.mp htoken with htoken | htoken
  · obtain ⟨lexeme, hlexeme, rfl⟩ := List.mem_map.mp htoken
    exact knows_of_lexes hext.reachable hlexes lexeme hlexeme
  · obtain rfl := List.mem_singleton.mp htoken
    exact fun op hop => nomatch hop

/-- **A tree that resolves keeps its value.** -/
theorem evaluate (hext : registry.Conservative next) {e : Expr} (hresolves : registry.Resolves e) :
    next.evaluate e = registry.evaluate e := by
  refine evaluate_congr fun node hnode => ?_
  have hnode := hresolves node hnode
  cases node with
  | number value => trivial
  | binary left op right => exact hext.findBinary?_eq hnode
  | prefixed op operand => exact hext.findUnary?_eq hnode
  | postfixed operand op => exact hext.findUnary?_eq hnode
  | call name args =>
      obtain ⟨f, hfind, _⟩ := hnode
      exact hext.findFunction?_eq (Option.isSome_of_eq_some hfind)

end Conservative

/-! ## Registration -/

/-- **Registration of a fresh definition is conservative.**  A text that is read
as a tree is read as the same tree with a function more, or with an operator more
whose names are words that named neither an operator nor a function; and the tree
has the same value, or fails alike. -/
theorem parse_of_register_fresh (hreach : registry.Reachable)
    (hregister : registry.register definition = (next, none))
    (hfresh : registry.Fresh definition.normalize) {limit : Nat} {source : Text} {e : Expr}
    (hparse : registry.parse limit source = .ok e) :
    next.parse limit source = .ok e ∧ next.evaluate e = registry.evaluate e := by
  obtain ⟨hadmits, rfl⟩ := register_eq_none_iff.mp hregister
  have hext := conservative_insert hreach (.register hreach hregister) hadmits hfresh
  obtain ⟨used, _, hderives⟩ := (reads_of_parse hparse).1.derives
  exact ⟨hext.parse hparse, hext.evaluate hderives.resolves⟩

/-- An operator that is a word, beside the standard table. -/
theorem parse_of_register_fresh_mean :
    ∃ next e, Registry.standard.register
        (.binary ⟨["Mean".toList], .additive, .left, Rules.add⟩) = (next, none) ∧
      Registry.standard.parse 8 "-max(1, 2)! + 3".toList = .ok e ∧
      next.parse 8 "-max(1, 2)! + 3".toList = .ok e ∧
      next.evaluate e = Registry.standard.evaluate e := by
  obtain ⟨next, hregister⟩ : ∃ next, Registry.standard.register
      (.binary ⟨["Mean".toList], .additive, .left, Rules.add⟩) = (next, none) := ⟨_, rfl⟩
  have hfresh : Registry.standard.Fresh
      (Definition.binary ⟨["Mean".toList], .additive, .left, Rules.add⟩).normalize := by
    refine .inr fun name hname => ?_
    obtain rfl : name = "mean".toList := List.mem_singleton.mp hname
    exact ⟨List.all_eq_true.mp (by decide +kernel), by decide +kernel, rfl⟩
  have hparse : Registry.standard.parse 8 "-max(1, 2)! + 3".toList =
      .ok (.binary (.prefixed "-".toList (.postfixed
        (.call "max".toList [.number (.ofInt 1), .number (.ofInt 2)]) "!".toList))
        "+".toList (.number (.ofInt 3))) := by
    decide +kernel
  exact ⟨next, _, hregister, hparse,
    parse_of_register_fresh reachable_standard hregister hfresh hparse⟩

end Registry

end Reckoner
