import Reckoner.Proofs.Parser.RoundTrip
import Reckoner.Proofs.Parser.Watched

/-!
# Nesting and height

At no point of a parse are there more calls of `expression` under way than the limit
allows, and every node stores the height of its tree.  The watch misses no node: each part
of the tree that comes out was noted when it was made.

A watched part of the parser does what the part does, returns with as many calls under
way as it began with, and leaves a watch in order (`WatchM.Follows`).  The nodes that are
noted only become more, so what was noted when a step began is all that the step has to
know of the past.  That is shown for each part with a given function for its operands,
which is called with one call more under way than the call that the part belongs to.  The
parser itself follows by induction on its budget: the budget and the calls under way make
up the limit, so the check stops a call exactly where the budget is spent
(`follows_expression`).
-/

namespace Reckoner

/-! ## Watches in order -/

/-- The height that a node stores is that of its tree. -/
def Node.Measured (node : Node) : Prop :=
  node.height = node.expr.depth

/-- A tree belongs to one of some nodes. -/
def Expr.NotedIn (nodes : List Node) (e : Expr) : Prop :=
  ∃ node ∈ nodes, node.expr = e

/-- A node stores the height of its tree, whose parts are all noted. -/
structure Node.KeptIn (nodes : List Node) (node : Node) : Prop where
  measured : node.Measured
  noted : node.expr.All (Expr.NotedIn nodes)

/-- What is noted remains so. -/
theorem Expr.All.mono_notedIn {nodes more : List Node} {e : Expr}
    (hnoted : e.All (Expr.NotedIn nodes)) (hsubset : nodes ⊆ more) :
    e.All (Expr.NotedIn more) := by
  intro part hpart
  obtain ⟨node, hnode, hexpr⟩ := hnoted part hpart
  exact ⟨node, hsubset hnode, hexpr⟩

theorem Node.KeptIn.mono {nodes more : List Node} {node : Node} (hkept : node.KeptIn nodes)
    (hsubset : nodes ⊆ more) : node.KeptIn more :=
  ⟨hkept.measured, hkept.noted.mono_notedIn hsubset⟩

/-- So far no count was above the limit, and the height in each node was right. -/
structure Watch.InOrder (limit : Nat) (watch : Watch) : Prop where
  counts_le : ∀ count ∈ watch.counts, count ≤ limit
  measured : ∀ node ∈ watch.nodes, node.Measured

namespace Watch.InOrder

variable {limit : Nat} {watch : Watch}

theorem start : Watch.start.InOrder limit where
  counts_le := by simp [Watch.start]
  measured := by simp [Watch.start]

theorem count (hwatch : watch.InOrder limit) {nesting : Nat} (hle : nesting ≤ limit) :
    (watch.count nesting).InOrder limit where
  counts_le := List.forall_mem_cons.mpr ⟨hle, hwatch.counts_le⟩
  measured := hwatch.measured

theorem keep (hwatch : watch.InOrder limit) {node : Node} (hnode : node.Measured) :
    (watch.keep node).InOrder limit where
  counts_le := hwatch.counts_le
  measured := List.forall_mem_cons.mpr ⟨hnode, hwatch.measured⟩

end Watch.InOrder

/-! ## Following the parser -/

namespace WatchM

variable {α β : Type} {limit calls : Nat} {known : List Node} {watched : WatchM α}
  {m : ParserM α} {f' : α → WatchM β} {f : α → ParserM β} {middle post : List Node → α → Prop}
  {post' : List Node → β → Prop}

/-- With so many calls under way and some nodes noted, a step under watch does what a step
of the parser does.  It leaves a watch in order, on which those nodes are noted still; its
value is as described in view of all nodes that are noted by then. -/
def Follows (limit calls : Nat) (known : List Node) (watched : WatchM α) (m : ParserM α)
    (post : List Node → α → Prop) : Prop :=
  ∀ ⦃s : ParserState⦄ ⦃watch : Watch⦄, watch.nesting = calls → watch.InOrder limit →
    known ⊆ watch.nodes →
    ∃ seen : Watch, watched.run s watch = ((m.run s).1, (m.run s).2, seen) ∧
      seen.nesting = calls ∧ seen.InOrder limit ∧ known ⊆ seen.nodes ∧
      ∀ a, (m.run s).1 = .ok a → post seen.nodes a

theorem run_bind {s : ParserState} {watch : Watch} :
    (watched >>= f').run s watch = match watched.run s watch with
      | (.ok a, t, seen) => (f' a).run t seen
      | (.error error, t, seen) => (.error error, t, seen) := by
  unfold run
  rw [bind_eq_match]
  rcases watched (s, watch) with ⟨_ | _, _, _⟩ <;> rfl

theorem run_made {m : ParserM Node} {s : ParserState} {watch : Watch} :
    (made m).run s watch = match m.run s with
      | (.ok node, t) => (.ok node, t, watch.keep node)
      | (.error error, t) => (.error error, t, watch) := rfl

theorem run_nested {s t : ParserState} {watch seen : Watch} {result : Except ParseError α}
    (hrun : watched.run s (watch.count (watch.nesting + 1)) = (result, t, seen)) :
    (nested watched).run s watch = (result, t, seen.count (seen.nesting - 1)) := by
  unfold run at hrun
  unfold nested run
  simp only [hrun]

namespace Follows

theorem bind (hfirst : Follows limit calls known watched m middle)
    (hnext : ∀ a nodes, known ⊆ nodes → middle nodes a →
      Follows limit calls nodes (f' a) (f a) post') :
    Follows limit calls known (watched >>= f') (m >>= f) post' := by
  intro s watch hcalls horder hknown
  obtain ⟨seen, hrun, hseen, hseenOrder, hsubset, hmiddle⟩ := hfirst hcalls horder hknown
  rw [run_bind, ParserM.run_bind, hrun]
  rcases hresult : m.run s with ⟨error | a, t⟩
  · exact ⟨seen, rfl, hseen, hseenOrder, hsubset, fun b h => by cases h⟩
  · obtain ⟨last, hlast, hcalls', horder', hsubset', hpost⟩ :=
      hnext a seen.nodes hsubset (hmiddle a (by rw [hresult])) hseen hseenOrder
        (List.Subset.refl _)
    exact ⟨last, hlast, hcalls', horder', List.Subset.trans hsubset hsubset', hpost⟩

theorem ite {c : Prop} [Decidable c] {yes' no' : WatchM α} {yes no : ParserM α}
    (hyes : c → Follows limit calls known yes' yes post)
    (hno : ¬ c → Follows limit calls known no' no post) :
    Follows limit calls known (if c then yes' else no') (if c then yes else no) post := by
  by_cases h : c
  · rw [if_pos h, if_pos h]
    exact hyes h
  · rw [if_neg h, if_neg h]
    exact hno h

theorem pure {a : α} (hpost : ∀ nodes, known ⊆ nodes → post nodes a) :
    Follows limit calls known (pure a) (pure a) post := by
  intro s watch hcalls horder hknown
  refine ⟨watch, rfl, hcalls, horder, hknown, ?_⟩
  rintro b ⟨⟩
  exact hpost _ hknown

theorem throw {error : ParseError} :
    Follows limit calls known (throw error : WatchM α) (throw error) post := by
  intro s watch hcalls horder hknown
  exact ⟨watch, rfl, hcalls, horder, hknown, fun b h => by cases h⟩

/-- A step of the parser notes no node. -/
theorem step_bind (hle : calls ≤ limit) {m : ParserM α}
    (hnext : ∀ a, Follows limit calls known (f' a) (f a) post') :
    Follows limit calls known (WatchM.step m >>= f') (m >>= f) post' := by
  intro s watch hcalls horder hknown
  have hrun : (WatchM.step m).run s watch =
      ((m.run s).1, (m.run s).2, watch.count watch.nesting) := rfl
  have hcount : (watch.count watch.nesting).InOrder limit := horder.count (hcalls ▸ hle)
  rw [run_bind, ParserM.run_bind, hrun]
  rcases m.run s with ⟨error | a, t⟩
  · exact ⟨_, rfl, hcalls, hcount, hknown, fun b h => by cases h⟩
  · exact hnext a hcalls hcount hknown

theorem reject (hle : calls ≤ limit) {expected : Expectation} :
    Follows limit calls known (WatchM.step (Parser.reject expected : ParserM α))
      (Parser.reject expected) post := by
  intro s watch hcalls horder hknown
  exact ⟨watch.count watch.nesting, rfl, hcalls, horder.count (hcalls ▸ hle), hknown,
    fun b h => by cases h⟩

/-- A node that is made is noted. -/
theorem made {m : ParserM Node}
    (hkept : ∀ s node, (m.run s).1 = .ok node → ∀ nodes, known ⊆ nodes →
      node.expr.NotedIn nodes → node.KeptIn nodes) :
    Follows limit calls known (WatchM.made m) m Node.KeptIn := by
  intro s watch hcalls horder hknown
  rw [run_made]
  rcases hresult : m.run s with ⟨error | node, t⟩
  · exact ⟨watch, rfl, hcalls, horder, hknown, fun b h => by cases h⟩
  · have hsubset : known ⊆ (watch.keep node).nodes :=
      List.Subset.trans hknown (List.subset_cons_self node watch.nodes)
    have hnode : node.KeptIn (watch.keep node).nodes :=
      hkept s node (by rw [hresult]) _ hsubset ⟨node, List.mem_cons_self, rfl⟩
    refine ⟨watch.keep node, rfl, hcalls, horder.keep hnode.measured, hsubset, ?_⟩
    rintro made ⟨⟩
    exact hnode

theorem made_wrap {expr : Expr} {height : Nat} {span : Span} (heq : height = expr.depth)
    (hnoted : ∀ nodes, known ⊆ nodes → expr.NotedIn nodes → expr.All (Expr.NotedIn nodes)) :
    Follows limit calls known (WatchM.made (Parser.wrap limit expr height span))
      (Parser.wrap limit expr height span) Node.KeptIn := by
  refine made fun s node hrun nodes hknown hself => ?_
  obtain ⟨_, rfl, _⟩ := ParserM.run_wrap_eq_ok.mp (Prod.ext hrun rfl)
  exact ⟨heq, hnoted nodes hknown hself⟩

theorem nesting_bind {f' : Nat → WatchM α} (hnext : Follows limit calls known (f' calls) m post) :
    Follows limit calls known (nesting >>= f') m post := by
  intro s watch hcalls horder hknown
  subst hcalls
  exact hnext rfl horder hknown

/-- A nested call counts until it returns. -/
theorem nested (hlt : calls < limit) (hinside : Follows limit (calls + 1) known watched m post) :
    Follows limit calls known (WatchM.nested watched) m post := by
  intro s watch hcalls horder hknown
  subst hcalls
  obtain ⟨seen, hrun, hseen, hseenOrder, hsubset, hpost⟩ :=
    hinside rfl (horder.count hlt) hknown
  refine ⟨seen.count (seen.nesting - 1), run_nested hrun, ?_, hseenOrder.count (by omega),
    hsubset, hpost⟩
  show seen.nesting - 1 = watch.nesting
  omega

end Follows

end WatchM

/-! ## The parts of the parser -/

namespace Parser

open WatchM

variable {registry : Registry} {limit calls budget : Nat} {known : List Node}
  {operand' : Int → WatchM Node} {operand : Int → ParserM Node}

section Parts

variable (hcalls : calls ≤ limit)

include hcalls

theorem follows_postfixChain (rounds : Nat) {node : Node} (hnode : node.KeptIn known) :
    Follows limit calls known (Watched.postfixChain registry limit rounds node)
      (postfixChain registry limit rounds node) Node.KeptIn := by
  induction rounds generalizing node known with
  | zero => exact .pure fun nodes hknown => hnode.mono hknown
  | succ rounds ih =>
      refine .step_bind hcalls fun ⟨token, span⟩ => ?_
      cases token with
      | operator name =>
          refine .ite (fun _ => ?_) fun _ => .pure fun nodes hknown => hnode.mono hknown
          refine .step_bind hcalls fun _ => ?_
          have hheight : node.height + 1 = (Expr.postfixed node.expr name).depth := by
            rw [Expr.depth, hnode.measured, Nat.add_comm]
          refine (Follows.made_wrap hheight fun nodes hknown hself => ?_).bind
            fun wrapped nodes _ hwrapped => ih hwrapped
          exact Expr.all_postfixed.mpr ⟨(hnode.mono hknown).noted, hself⟩
      | _ => exact .pure fun nodes hknown => hnode.mono hknown

variable (hoperand : ∀ known minimum,
  Follows limit calls known (operand' minimum) (operand minimum) Node.KeptIn)

include hoperand

theorem follows_binaryChain (minimum : Int) (rounds : Nat) {left : Node}
    (hleft : left.KeptIn known) :
    Follows limit calls known (Watched.binaryChain registry limit operand' minimum rounds left)
      (binaryChain registry limit operand minimum rounds left) Node.KeptIn := by
  induction rounds generalizing left known with
  | zero => exact .pure fun nodes hknown => hleft.mono hknown
  | succ rounds ih =>
      refine .step_bind hcalls fun ⟨token, span⟩ => ?_
      cases token with
      | operator name =>
          dsimp only
          cases registry.findBinary? name with
          | none => exact .pure fun nodes hknown => hleft.mono hknown
          | some operator =>
              refine .ite (fun _ => .pure fun nodes hknown => hleft.mono hknown) fun _ => ?_
              refine .step_bind hcalls fun _ => ?_
              refine (hoperand known operator.rightMinimum).bind
                fun right nodes hknown hright => ?_
              have hleft := hleft.mono hknown
              have hheight : 1 + max left.height right.height =
                  (Expr.binary left.expr name right.expr).depth := by
                rw [Expr.depth, hleft.measured, hright.measured]
              refine (Follows.made_wrap hheight fun more hmore hself => ?_).bind
                fun joined _ _ hjoined => ih hjoined
              exact Expr.all_binary.mpr
                ⟨(hleft.mono hmore).noted, (hright.mono hmore).noted, hself⟩
      | _ => exact .pure fun nodes hknown => hleft.mono hknown

theorem follows_arguments (rounds : Nat) {args : List Node}
    (hargs : ∀ arg ∈ args, arg.KeptIn known) :
    Follows limit calls known (Watched.arguments operand' rounds args)
      (arguments operand rounds args) fun nodes args => ∀ arg ∈ args, arg.KeptIn nodes := by
  induction rounds generalizing args known with
  | zero => exact .pure fun nodes hknown arg harg => (hargs arg harg).mono hknown
  | succ rounds ih =>
      refine .step_bind hcalls fun current => .ite (fun _ => ?_) fun _ =>
        .pure fun nodes hknown arg harg => (hargs arg harg).mono hknown
      refine .step_bind hcalls fun _ => (hoperand known 0).bind fun arg nodes hknown harg => ?_
      refine ih fun node hnode => ?_
      rcases List.mem_append.mp hnode with hold | hnew
      · exact (hargs node hold).mono hknown
      · obtain rfl := List.mem_singleton.mp hnew
        exact harg

theorem follows_argumentList :
    Follows limit calls known (Watched.argumentList operand') (argumentList operand)
      fun nodes args => ∀ arg ∈ args, arg.KeptIn nodes := by
  refine .step_bind hcalls fun current => .ite (fun _ => .pure (by simp)) fun _ => ?_
  refine (hoperand known 0).bind fun first nodes _ hfirst => .step_bind hcalls fun rounds => ?_
  exact follows_arguments hcalls hoperand rounds (by simpa using hfirst)

theorem follows_call (name : Text) :
    Follows limit calls known (Watched.call registry limit operand' name)
      (call registry limit operand name) Node.KeptIn := by
  refine .step_bind hcalls fun current => ?_
  cases registry.findFunction? name with
  | none => exact .reject hcalls
  | some f =>
      refine .step_bind hcalls fun _ => .step_bind hcalls fun opening => ?_
      refine .ite (fun _ => .reject hcalls) fun _ => .step_bind hcalls fun _ => ?_
      refine (follows_argumentList hcalls hoperand).bind fun args nodes _ hargs => ?_
      refine .step_bind hcalls fun close => ?_
      refine .ite (fun _ => .step_bind hcalls fun _ => .throw) fun _ => .made_wrap ?_ ?_
      · rw [Expr.depth, foldr_height_eq_maxDepth fun arg harg => (hargs arg harg).measured]
      · intro more hmore hself
        refine Expr.all_call.mpr ⟨List.forall_mem_map.mpr fun arg harg => ?_, hself⟩
        exact ((hargs arg harg).mono hmore).noted

theorem follows_atom :
    Follows limit calls known (Watched.atom registry limit operand')
      (atom registry limit operand) Node.KeptIn := by
  refine .step_bind hcalls fun ⟨token, span⟩ => ?_
  cases token with
  | number value =>
      refine .step_bind hcalls fun _ => .made ?_
      rintro s node ⟨⟩ nodes _ hself
      exact ⟨rfl, Expr.all_number.mpr hself⟩
  | leftParen =>
      refine .step_bind hcalls fun _ => (hoperand known 0).bind fun inner nodes _ hinner => ?_
      exact .step_bind hcalls fun _ => .pure fun more hmore => hinner.mono hmore
  | operator name =>
      dsimp only
      cases registry.findUnary? .prefixed name with
      | none => exact .reject hcalls
      | some operator =>
          refine .step_bind hcalls fun _ => ?_
          refine (hoperand known operator.precedence.level).bind
            fun inner nodes _ hinner => .made_wrap ?_ fun more hmore hself => ?_
          · rw [Expr.depth, hinner.measured, Nat.add_comm]
          · exact Expr.all_prefixed.mpr ⟨(hinner.mono hmore).noted, hself⟩
  | function name => exact follows_call hcalls hoperand name
  | _ => exact .reject hcalls

theorem follows_primary :
    Follows limit calls known (Watched.primary registry limit operand')
      (primary registry limit operand) Node.KeptIn := by
  refine (follows_atom hcalls hoperand).bind fun node nodes _ hnode => ?_
  exact .step_bind hcalls fun rounds => follows_postfixChain hcalls rounds hnode

end Parts

/-- **The check of the limit stops a call where the budget is spent**, since the budget
and the calls under way make up the limit. -/
theorem follows_expression (hlimit : calls + budget = limit) (known : List Node) (minimum : Int) :
    Follows limit calls known (Watched.expression registry limit (budget + 1) minimum)
      (expression registry limit budget minimum) Node.KeptIn := by
  have hcalls : calls ≤ limit := by omega
  induction budget generalizing calls known minimum with
  | zero =>
      refine .nesting_bind ?_
      rw [if_pos (show limit ≤ calls by omega)]
      exact .step_bind hcalls fun current => .step_bind hcalls fun _ => .throw
  | succ budget ih =>
      have hlt : calls < limit := by omega
      have hoperand : ∀ known minimum, Follows limit (calls + 1) known
          (Watched.expression registry limit (budget + 1) minimum)
          (expression registry limit budget minimum) Node.KeptIn :=
        fun known minimum => ih (by omega) known minimum hlt
      refine .nesting_bind ?_
      rw [if_neg (show ¬ limit ≤ calls by omega)]
      refine .nested hlt ((follows_primary hlt hoperand).bind fun left nodes _ hleft => ?_)
      exact .step_bind hlt fun rounds => follows_binaryChain hlt hoperand minimum rounds hleft

theorem follows_parse :
    Follows limit 0 known (Watched.parse registry limit) (parse registry limit)
      fun nodes e => e.All (Expr.NotedIn nodes) := by
  have hcalls : 0 ≤ limit := Nat.zero_le limit
  refine (follows_expression (Nat.zero_add limit) known 0).bind fun node nodes _ hnode => ?_
  refine .step_bind hcalls fun current => .ite (fun _ => ?_) fun _ => ?_
  · exact .pure fun more hmore => hnode.noted.mono_notedIn hmore
  · exact .step_bind hcalls fun _ => .throw

end Parser

/-! ## Texts -/

namespace Registry

theorem watch_follows (registry : Registry) (limit : Nat) (source : Text) :
    (registry.watch limit source).1 = registry.parse limit source ∧
      (registry.watch limit source).2.InOrder limit ∧
      ∀ e, registry.parse limit source = .ok e →
        e.All (Expr.NotedIn (registry.watch limit source).2.nodes) := by
  unfold watch parse
  cases ParserState.start registry source with
  | error error => exact ⟨rfl, .start, fun e h => by cases h⟩
  | ok state =>
      have hfollows : WatchM.Follows limit 0 [] (Watched.parse registry limit)
          (Parser.parse registry limit) fun nodes e => e.All (Expr.NotedIn nodes) :=
        Parser.follows_parse
      obtain ⟨seen, hrun, _, horder, _, hnoted⟩ :=
        @hfollows state .start rfl .start (List.nil_subset _)
      simp only [hrun]
      exact ⟨rfl, horder, hnoted⟩

/-- **Nesting and height are bounded.**  The watch changes no result; at no point of the
parse are more calls under way than the limit allows; every node stores the height of
its tree; and the height of the tree that comes out is between one and the limit.  The
nodes of that tree are among those that the watch has noted. -/
theorem watch_inOrder (registry : Registry) (limit : Nat) (source : Text) :
    (registry.watch limit source).1 = registry.parse limit source ∧
      (∀ count ∈ (registry.watch limit source).2.counts, count ≤ limit) ∧
      (∀ node ∈ (registry.watch limit source).2.nodes, node.height = node.expr.depth) ∧
      ∀ e, registry.parse limit source = .ok e →
        (e.All fun part => ∃ node ∈ (registry.watch limit source).2.nodes, node.expr = part) ∧
          1 ≤ e.depth ∧ e.depth ≤ limit := by
  obtain ⟨hresult, horder, hnoted⟩ := registry.watch_follows limit source
  refine ⟨hresult, horder.counts_le, horder.measured, fun e hparse => ?_⟩
  exact ⟨hnoted e hparse, e.depth_pos, (reads_of_parse hparse).2⟩

-- the group is one call inside another, and the postfix operator wraps the number in it
example : (standard.watch 2 "(2)!".toList).2.counts.max? = some 2 ∧
    (standard.watch 2 "(2)!".toList).2.nodes.map (·.height) = [2, 1] := by
  decide +kernel

end Registry

end Reckoner
