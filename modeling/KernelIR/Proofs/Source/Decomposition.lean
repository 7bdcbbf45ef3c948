import KernelIR.Proofs.Related
import KernelIR.Proofs.Source.Placement
import Mathlib.Data.Fintype.EquivFin
import Mathlib.Data.Fintype.Sets
import Mathlib.Data.List.Chain
import Mathlib.Logic.Relation

/-!
# Chains and cycles

Where no node but the exit is fallen into twice, and neither into the entry nor out of the exit
(`Unshared`), the fall-through edges cut the nodes into paths and cycles.  `sequence_decomposes`:
the executable sequence lists the paths in source order of their first nodes, then the cycles, each
from its first node in source order and by that node, and then the exit.  So control falls from a
node into the one directly behind it, except into the exit and along one edge of each cycle.

What carries the argument is that the nodes placed so far are cut off from the others (`Detached`):
an edge leads from them to them, or from the rest to the rest.  Then the chain from a new node runs
to its end, or back to that node (`Chains.ends`), and what it adds is cut off again
(`Detached.append`).  While nodes are taken, only those that nothing falls into start a chain, and
the others wait (`exists_chains_taken`).  After that each node left has a node left that falls into
it, so by counting each falls into one (`falls_of_unplaced`): only cycles are left
(`exists_cycles_placed`).
-/

namespace KernelIR.Source.Graph

variable {g : Graph}

/-! ### Falling -/

/-- Control falls from one node into another. -/
def FallsInto (g : Graph) (m n : Node) : Prop :=
  g.next? m = some n

/-- Control that falls on from one node comes to another, or is there already. -/
def Reaches (g : Graph) : Node → Node → Prop :=
  Relation.ReflTransGen g.FallsInto

/-- Control that falls on from a node comes back to it. -/
def OnCycle (g : Graph) (n : Node) : Prop :=
  Relation.TransGen g.FallsInto n n

theorem FallsInto.unique {m n n' : Node} (h : g.FallsInto m n) (h' : g.FallsInto m n') : n = n' :=
  Option.some.inj (h.symm.trans h')

/-- From a cycle control comes back, however far it has fallen. -/
theorem OnCycle.returns {m n : Node} (h : g.OnCycle m) (hreach : g.Reaches m n) :
    Relation.TransGen g.FallsInto n m := by
  induction hreach with
  | refl => exact h
  | tail _ hfall ih =>
    obtain ⟨k, hk, hback⟩ := Relation.TransGen.head'_iff.mp ih
    obtain rfl := hfall.unique hk
    rcases Relation.reflTransGen_iff_eq_or_transGen.mp hback with rfl | hback
    · exact h
    · exact hback

/-- No node but the exit is fallen into twice, and control neither falls into the entry nor out of
the exit. -/
structure Unshared (g : Graph) : Prop where
  enclosed : g.Enclosed
  entry : ∀ m, ¬g.FallsInto m .entry
  exit : g.next? .exit = none
  unique : ∀ {m m' n}, n ≠ .exit → g.FallsInto m n → g.FallsInto m' n → m = m'

theorem unshared_iff : g.Unshared ↔ g.Enclosed ∧ (∀ m ∈ g.nodes, g.next? m ≠ some .entry) ∧
    g.next? .exit = none ∧ ∀ m ∈ g.nodes, ∀ m' ∈ g.nodes, ∀ n ∈ g.next? m, n ≠ .exit →
      g.next? m' = some n → m = m' := by
  constructor
  · intro h
    exact ⟨h.enclosed, fun m _ => h.entry m, h.exit, fun m _ m' _ n hm hn hm' => h.unique hn hm hm'⟩
  · rintro ⟨henclosed, hentry, hexit, hunique⟩
    refine ⟨henclosed, fun m hm => hentry m (mem_nodes_of_next? hm) hm, hexit, ?_⟩
    intro m m' n hn hm hm'
    exact hunique m (mem_nodes_of_next? hm) m' (mem_nodes_of_next? hm') n hm hn hm'

instance : Decidable g.Unshared :=
  decidable_of_iff' _ unshared_iff

theorem Unshared.ne_exit (h : g.Unshared) {m n : Node} (hfall : g.FallsInto m n) : m ≠ .exit := by
  rintro rfl
  rw [FallsInto, h.exit] at hfall
  cases hfall

/-- A node other than the exit that nothing falls into. -/
def IsHead (g : Graph) (n : Node) : Prop :=
  n ≠ .exit ∧ ∀ m, ¬g.FallsInto m n

/-- The first node of a cycle in source order. -/
def IsCycleFirst (g : Graph) (n : Node) : Prop :=
  g.OnCycle n ∧ ∀ m, g.Reaches n m → g.rank n ≤ g.rank m

/-- The nodes with a property, in source order. -/
structure Enumerates (g : Graph) (ns : List Node) (P : Node → Prop) : Prop where
  order : ns.Sublist g.nodes
  mem : ∀ n, n ∈ ns ↔ n ∈ g.nodes ∧ P n

theorem isHead_iff {n : Node} : g.IsHead n ↔ n ≠ .exit ∧ g.fallPredecessor? n = none := by
  refine and_congr_right fun _ => ?_
  rw [fallPredecessor?, List.getLast?_eq_none_iff, List.filter_eq_nil_iff]
  constructor
  · intro h m _ hm
    exact h m (of_decide_eq_true (p := g.next? m = some n) hm)
  · intro h m hm
    exact h m (mem_nodes_of_next? hm) (decide_eq_true hm)

instance : DecidablePred g.IsHead :=
  fun _ => decidable_of_iff' _ isHead_iff

/-- The nodes that paths begin with. -/
def heads (g : Graph) : List Node :=
  g.nodes.filter fun n => g.IsHead n

theorem enumerates_heads (g : Graph) : g.Enumerates g.heads g.IsHead :=
  ⟨List.filter_sublist, fun n => by simp [heads]⟩

/-! ### Trails -/

/-- Different nodes, from the first of which control falls from each into the next. -/
structure Trail (g : Graph) (n : Node) (ns : List Node) : Prop where
  head : ns.head? = some n
  falls : ns.IsChain g.FallsInto
  nodup : ns.Nodup

/-- The whole path from a node: control falls on until it falls nowhere or into the exit. -/
structure FallChain (g : Graph) (n : Node) (ns : List Node) : Prop extends g.Trail n ns where
  exit : .exit ∉ ns
  ends : ∀ m ∈ ns.getLast?, g.next? m = none ∨ g.next? m = some .exit

/-- The whole cycle through a node, from there: control falls on until it falls back. -/
structure FallCycle (g : Graph) (n : Node) (ns : List Node) : Prop extends g.Trail n ns where
  closes : ∀ m ∈ ns.getLast?, g.FallsInto m n

namespace Trail

variable {n : Node} {ns : List Node}

theorem mem (h : g.Trail n ns) : n ∈ ns :=
  List.mem_of_mem_head? h.head

theorem ne_nil (h : g.Trail n ns) : ns ≠ [] :=
  List.ne_nil_of_mem h.mem

/-- Another node of a trail than the first stands directly behind one that falls into it. -/
theorem exists_before (h : g.Trail n ns) {s : Node} (hs : s ∈ ns) (hne : s ≠ n) :
    ∃ l₁ m l₂, ns = l₁ ++ m :: s :: l₂ ∧ g.FallsInto m s := by
  obtain ⟨l₁, l₂, rfl⟩ := List.append_of_mem hs
  rcases List.eq_nil_or_concat l₁ with rfl | ⟨l₁, m, rfl⟩
  · exact absurd (Option.some.inj h.head) hne
  · have hfalls := h.falls
    rw [List.concat_append, List.isChain_append_cons_cons] at hfalls
    exact ⟨l₁, m, l₂, by simp, hfalls.2.1⟩

/-- Another node of a trail than the last stands directly before the one that it falls into. -/
theorem infix_of_falls (h : g.Trail n ns) {m s : Node} (hm : m ∈ ns) (hlast : m ∉ ns.getLast?)
    (hfall : g.FallsInto m s) : [m, s] <:+: ns := by
  obtain ⟨l₁, l₂, rfl⟩ := List.append_of_mem hm
  cases l₂ with
  | nil => simp at hlast
  | cons k l₂ =>
    have hk : g.FallsInto m k := (List.isChain_append_cons_cons.mp h.falls).2.1
    obtain rfl := hfall.unique hk
    exact ⟨l₁, l₂, by simp⟩

theorem reaches (h : g.Trail n ns) {m : Node} (hm : m ∈ ns) : g.Reaches n m := by
  refine h.falls.induction (g.Reaches n) ns (fun _ _ hfall hreach => hreach.tail hfall) ?_ m hm
  intro hne
  rw [Option.some.inj ((List.head?_eq_some_head hne).symm.trans h.head)]
  exact Relation.ReflTransGen.refl

theorem reaches_last (h : g.Trail n ns) {m last : Node} (hm : m ∈ ns) (hlast : last ∈ ns.getLast?) :
    g.Reaches m last := by
  refine h.falls.backwards_induction (g.Reaches · last) ns
    (fun _ _ hfall hreach => hreach.head hfall) ?_ m hm
  intro hne
  rw [Option.some.inj ((List.getLast?_eq_some_getLast hne).symm.trans hlast)]
  exact Relation.ReflTransGen.refl

end Trail

theorem FallChain.infix_of_falls {n m s : Node} {ns : List Node} (h : g.FallChain n ns)
    (hm : m ∈ ns) (hfall : g.FallsInto m s) (hs : s ≠ .exit) : [m, s] <:+: ns := by
  refine h.toTrail.infix_of_falls hm (fun hlast => ?_) hfall
  rcases h.ends m hlast with hend | hend
  · cases hfall.symm.trans hend
  · exact hs (hfall.unique hend)

/-- No cycle goes through a path that ends. -/
theorem FallChain.not_onCycle (hexit : g.next? .exit = none) {n m : Node} {ns : List Node}
    (h : g.FallChain n ns) (hm : m ∈ ns) : ¬g.OnCycle m := by
  intro hcycle
  obtain ⟨last, hlast⟩ := Option.isSome_iff_exists.mp (List.getLast?_isSome.mpr h.ne_nil)
  have hback := hcycle.returns (h.reaches_last hm hlast)
  obtain ⟨k, hk, hreach⟩ := Relation.TransGen.head'_iff.mp hback
  rcases h.ends last hlast with hend | hend
  · cases hk.symm.trans hend
  · -- control that falls into the exit stays there
    obtain rfl := hk.unique hend
    rcases Relation.ReflTransGen.cases_head hreach with rfl | ⟨s, hs, -⟩
    · exact h.exit hm
    · cases hs.symm.trans hexit

namespace FallCycle

variable {n : Node} {ns : List Node}

theorem exists_last (h : g.FallCycle n ns) : ∃ last ∈ ns.getLast?, g.FallsInto last n := by
  obtain ⟨last, hlast⟩ := Option.isSome_iff_exists.mp (List.getLast?_isSome.mpr h.ne_nil)
  exact ⟨last, hlast, h.closes last hlast⟩

/-- Control comes from each node of a cycle to each. -/
theorem transGen (h : g.FallCycle n ns) {m s : Node} (hm : m ∈ ns) (hs : s ∈ ns) :
    Relation.TransGen g.FallsInto m s := by
  obtain ⟨last, hlast, hcloses⟩ := h.exists_last
  exact Relation.TransGen.trans_left (.tail' (h.reaches_last hm hlast) hcloses) (h.reaches hs)

/-- Control does not leave a cycle. -/
theorem mem_of_reaches (h : g.FallCycle n ns) {m s : Node} (hm : m ∈ ns) (hreach : g.Reaches m s) :
    s ∈ ns := by
  induction hreach with
  | refl => exact hm
  | @tail k s _ hfall hk =>
    by_cases hlast : k ∈ ns.getLast?
    · rw [hfall.unique (h.closes k hlast)]
      exact h.mem
    · exact (h.infix_of_falls hk hlast hfall).subset (by simp)

end FallCycle

/-! ### What a chain places -/

theorem Chains.start_eq {placed run : List Node} {start : Option Node}
    (h : g.Chains placed start run) {n : Node} (hn : n ∈ run.head?) : start = some n := by
  cases h with
  | nowhere | stop => cases hn
  | step => exact hn

theorem Chains.falls {placed run : List Node} {start : Option Node}
    (h : g.Chains placed start run) : run.IsChain g.FallsInto := by
  induction h with
  | nowhere | stop => exact List.isChain_nil
  | step _ _ hrun ih => exact List.isChain_cons.mpr ⟨fun m hm => hrun.start_eq hm, ih⟩

/-- A chain ends where control falls nowhere, into the exit, or into a node that has its place. -/
theorem Chains.last {placed run : List Node} {start : Option Node} (h : g.Chains placed start run)
    {m : Node} (hm : m ∈ run.getLast?) :
    g.next? m = none ∨ g.next? m = some .exit ∨ ∃ s ∈ placed ++ run, g.FallsInto m s := by
  induction h with
  | nowhere | stop => cases hm
  | @step placed run n _ _ hrun ih =>
    cases run with
    | nil =>
      -- the chain breaks off right behind the node
      obtain rfl : n = m := Option.some.inj hm
      generalize hnext : g.next? n = next at hrun
      cases hrun with
      | nowhere => exact .inl rfl
      | @stop _ s hstop =>
        rcases hstop with rfl | hplaced
        · exact .inr (.inl rfl)
        · exact .inr (.inr ⟨s, hplaced, hnext⟩)
    | cons k run =>
      rw [List.getLast?_cons_cons] at hm
      simpa using ih hm

/-- No edge joins a node that has its place to one that has none, except into the exit. -/
def Detached (g : Graph) (placed : List Node) : Prop :=
  ∀ m n, g.FallsInto m n → n ≠ .exit → (m ∈ placed ↔ n ∈ placed)

theorem detached_nil : g.Detached [] := by
  simp [Detached]

/-- Next to nodes that are cut off, the chain from a new node comes to its end or back to the
node. -/
theorem Chains.ends (h : g.Unshared) {placed run : List Node} {n : Node} (hplaced : g.Tidy placed)
    (hdetached : g.Detached placed) (hn : n ∈ g.nodes) (hexit : n ≠ .exit) (hnew : n ∉ placed)
    (hrun : g.Chains placed (some n) run) :
    g.Trail n run ∧ .exit ∉ run ∧
      ∀ m ∈ run.getLast?, g.next? m = none ∨ g.next? m = some .exit ∨ g.FallsInto m n := by
  have htidy : g.Tidy (placed ++ run) := hrun.tidy h.enclosed (by simpa using hn) hplaced
  have htrail : g.Trail n run := by
    refine ⟨?_, hrun.falls, htidy.nodup.of_append_right⟩
    cases hrun with
    | stop hstop => exact absurd hstop (not_or.mpr ⟨hexit, hnew⟩)
    | step => rfl
  refine ⟨htrail, fun hmem => htidy.exit (List.mem_append_right _ hmem), fun m hm => ?_⟩
  obtain hend | hend | ⟨s, hs, hfall⟩ := hrun.last hm
  · exact .inl hend
  · exact .inr (.inl hend)
  · -- the run ends at a node that falls into one with a place, either an old or a new one
    have hs_exit : s ≠ .exit := fun hs_exit => htidy.exit (hs_exit ▸ hs)
    have hm_run : m ∈ run := List.mem_of_getLast? hm
    rcases List.mem_append.mp hs with hs | hs
    · -- a node with a place is fallen into only from nodes with one
      have hm_placed := (hdetached m s hfall hs_exit).mpr hs
      exact absurd hm_run (List.disjoint_of_nodup_append htidy.nodup hm_placed)
    · by_cases hsn : s = n
      · exact .inr (.inr (hsn ▸ hfall))
      · -- inside the chain, the last node would be one that others follow
        obtain ⟨l₁, k, l₂, rfl, hk⟩ := htrail.exists_before hs hsn
        obtain rfl := h.unique hs_exit hfall hk
        have hnodup := htrail.nodup.of_append_right
        rw [List.getLast?_append_of_ne_nil _ (by simp), List.getLast?_cons_cons] at hm
        exact absurd (List.mem_of_getLast? hm) (List.nodup_cons.mp hnodup).1

/-- What a chain adds is cut off again, if the chain holds the node that falls into its first. -/
theorem Detached.append (h : g.Unshared) {placed run : List Node} {n : Node}
    (hdetached : g.Detached placed) (htrail : g.Trail n run)
    (hends : ∀ m ∈ run.getLast?, g.next? m = none ∨ g.next? m = some .exit ∨ g.FallsInto m n)
    (hfirst : ∀ m, g.FallsInto m n → m ∈ run) : g.Detached (placed ++ run) := by
  intro m s hfall hs_exit
  have hrun : m ∈ run ↔ s ∈ run := by
    constructor
    · intro hm
      -- inside the run the next node is the one fallen into; its last node needs `hends`
      by_cases hlast : m ∈ run.getLast?
      · obtain hend | hend | hend := hends m hlast
        · cases hfall.symm.trans hend
        · exact absurd (hfall.unique hend) hs_exit
        · rw [hfall.unique hend]
          exact htrail.mem
      · exact (htrail.infix_of_falls hm hlast hfall).subset (by simp)
    · intro hs
      by_cases hsn : s = n
      · exact hfirst m (hsn ▸ hfall)
      · -- nodes share no follower, so that `m` is the node before `s`
        obtain ⟨l₁, k, l₂, rfl, hk⟩ := htrail.exists_before hs hsn
        rw [h.unique hs_exit hfall hk]
        simp
  rw [List.mem_append, List.mem_append, hrun, hdetached m s hfall hs_exit]

/-! ### Paths -/

/-- The chain from a node that nothing falls into is the whole path from it. -/
theorem fallChain_of_isHead (h : g.Unshared) {placed run : List Node} {n : Node}
    (hplaced : g.Tidy placed) (hdetached : g.Detached placed) (hn : n ∈ g.nodes)
    (hhead : g.IsHead n) (hnew : n ∉ placed) (hrun : g.Chains placed (some n) run) :
    g.FallChain n run ∧ g.Detached (placed ++ run) := by
  obtain ⟨htrail, hexit, hends⟩ := hrun.ends h hplaced hdetached hn hhead.1 hnew
  refine ⟨⟨htrail, hexit, fun m hm => ?_⟩, ?_⟩
  · obtain hend | hend | hend := hends m hm
    · exact .inl hend
    · exact .inr hend
    · exact absurd hend (hhead.2 m)
  · exact hdetached.append h htrail hends fun m hm => absurd hm (hhead.2 m)

/-- While the nodes are taken, the paths from those that nothing falls into are placed, and nothing
else is. -/
theorem exists_chains_taken (h : g.Unshared) {ns rest : List Node} (hns : ns ++ rest = g.nodes) :
    ∃ chains, List.Forall₂ g.FallChain (ns.filter fun n => g.IsHead n) chains ∧
      (ns.foldl (Progress.visit g) {}).placed = chains.flatten ∧ g.Detached chains.flatten := by
  induction ns using List.reverseRecOn generalizing rest with
  | nil => exact ⟨[], .nil, rfl, detached_nil⟩
  | append_singleton ns n ih =>
    have hsplit : ns ++ n :: rest = g.nodes := by simpa using hns
    obtain ⟨chains, hchains, hplaced, hdetached⟩ := ih hsplit
    have hn : n ∈ g.nodes := by simp [← hsplit]
    have htidy : g.Tidy chains.flatten := by
      rw [← hplaced]
      refine foldl_visit_keeps (fun _ hp _ hn => hp.place h.enclosed hn) ?_ tidy_nil
      rw [← hsplit]
      exact List.subset_append_left _ _
    rw [List.foldl_append, List.foldl_cons, List.foldl_nil, List.filter_append]
    generalize ns.foldl (Progress.visit g) {} = p at hplaced ⊢
    by_cases hhead : g.IsHead n
    · -- only its own path could have placed the node, and that begins with it
      have hnew : n ∉ chains.flatten := by
        intro hmem
        obtain ⟨c, hc, hnc⟩ := List.mem_flatten.mp hmem
        obtain ⟨k, hk, hchain⟩ := exists_of_forall₂_right hchains hc
        have hkn : n = k := by
          by_contra hne
          obtain ⟨-, m, -, -, hm⟩ := hchain.exists_before hnc hne
          exact hhead.2 m hm
        have hnodup := g.nodup_nodes
        rw [← hsplit] at hnodup
        have hk_ns : n ∈ ns := hkn ▸ (List.mem_filter.mp hk).1
        exact List.disjoint_of_nodup_append hnodup hk_ns List.mem_cons_self
      obtain ⟨run, hrun, hplace⟩ := exists_place_eq h.enclosed chains.flatten hn
      obtain ⟨hchain, hdetached'⟩ := fallChain_of_isHead h htidy hdetached hn hhead hnew hrun
      refine ⟨chains ++ [run], ?_, ?_, by simpa using hdetached'⟩
      · refine List.rel_append hchains ?_
        simpa [hhead] using hchain
      · obtain ⟨hdone, -⟩ | ⟨-, -, ⟨m, hm, -⟩, -⟩ | ⟨-, -, -, hvisit⟩ := visit_cases g p n
        · rw [hplaced] at hdone
          exact absurd hdone (not_or.mpr ⟨hhead.1, hnew⟩)
        · exact absurd (next?_of_fallPredecessor? hm) (hhead.2 m)
        · rw [hvisit]
          simp [hplaced, hplace]
    · refine ⟨chains, by simpa [hhead] using hchains, ?_, hdetached⟩
      obtain ⟨-, hvisit⟩ | ⟨-, -, -, hvisit⟩ | ⟨hexit, hnew, hpred, -⟩ := visit_cases g p n
      · rw [hvisit, hplaced]
      · rw [hvisit, hplaced]
      · -- the node that falls into this one would have pulled it in
        cases hm : g.fallPredecessor? n with
        | none => exact absurd (isHead_iff.mpr ⟨hexit, hm⟩) hhead
        | some m =>
          have hfall := next?_of_fallPredecessor? hm
          have hm_placed := hpred m hm
          rw [hplaced] at hm_placed hnew
          exact absurd ((hdetached m n hfall hexit).mp hm_placed) hnew

/-! ### Cycles -/

/-- Where each of some nodes is fallen into by one of them, each falls into one of them: the ones
that fall are as many as those fallen into. -/
theorem exists_falls_of_forall_exists {ns : List Node}
    (h : ∀ s ∈ ns, ∃ m ∈ ns, g.FallsInto m s) {m : Node} (hm : m ∈ ns) :
    ∃ s ∈ ns, g.FallsInto m s := by
  choose pred hmem hpred using h
  let before : {s // s ∈ ns} → {s // s ∈ ns} := fun s => ⟨pred s.1 s.2, hmem s.1 s.2⟩
  have hinjective : Function.Injective before := by
    intro s s' heq
    have hs : g.FallsInto (before s) s := hpred s.1 s.2
    rw [heq] at hs
    exact Subtype.ext (hs.unique (hpred s'.1 s'.2))
  obtain ⟨s, hs⟩ := Finite.surjective_of_injective hinjective ⟨m, hm⟩
  refine ⟨s.1, s.2, ?_⟩
  have hfall : g.FallsInto (before s) s := hpred s.1 s.2
  rwa [hs] at hfall

/-- If all nodes that nothing falls into have their place, then each node without a place falls into
one other than the exit. -/
theorem falls_of_unplaced (h : g.Unshared) {placed : List Node} (hdetached : g.Detached placed)
    (hheads : ∀ n ∈ g.nodes, g.IsHead n → n ∈ placed) {n : Node} (hn : n ∈ g.nodes)
    (hexit : n ≠ .exit) (hnew : n ∉ placed) : ∃ s, s ≠ .exit ∧ g.FallsInto n s := by
  have hleft : ∀ m, m ∈ (g.unplaced placed).filter (· ≠ .exit) ↔
      (m ∈ g.nodes ∧ m ∉ placed) ∧ m ≠ .exit := by
    intro m
    rw [List.mem_filter, mem_unplaced, decide_eq_true_eq]
  -- a node without a place is no head, so some node falls into it, which has no place either
  have hpred : ∀ s ∈ (g.unplaced placed).filter (· ≠ .exit),
      ∃ m ∈ (g.unplaced placed).filter (· ≠ .exit), g.FallsInto m s := by
    intro s hs
    obtain ⟨⟨hs, hs_new⟩, hs_exit⟩ := (hleft s).mp hs
    have hs_head : ¬∀ m, ¬g.FallsInto m s := fun hnone => hs_new (hheads s hs ⟨hs_exit, hnone⟩)
    obtain ⟨m, hm⟩ := not_forall_not.mp hs_head
    have hm_new : m ∉ placed := fun hmem => hs_new ((hdetached m s hm hs_exit).mp hmem)
    exact ⟨m, (hleft m).mpr ⟨⟨mem_nodes_of_next? hm, hm_new⟩, h.ne_exit hm⟩, hm⟩
  -- finitely many nodes, each with its own predecessor among them: each has a follower too
  obtain ⟨s, hs, hfall⟩ :=
    exists_falls_of_forall_exists hpred ((hleft n).mpr ⟨⟨hn, hnew⟩, hexit⟩)
  exact ⟨s, ((hleft s).mp hs).2, hfall⟩

/-- When all paths are placed, the chain from a node that is left is the whole cycle through it. -/
theorem fallCycle_of_unplaced (h : g.Unshared) {placed run : List Node} {n : Node}
    (hplaced : g.Tidy placed) (hdetached : g.Detached placed)
    (hheads : ∀ n ∈ g.nodes, g.IsHead n → n ∈ placed) (hn : n ∈ g.nodes) (hexit : n ≠ .exit)
    (hnew : n ∉ placed) (hrun : g.Chains placed (some n) run) :
    g.FallCycle n run ∧ g.Detached (placed ++ run) := by
  obtain ⟨htrail, hrun_exit, hends⟩ := hrun.ends h hplaced hdetached hn hexit hnew
  have htidy : g.Tidy (placed ++ run) := hrun.tidy h.enclosed (by simpa using hn) hplaced
  -- the run cannot stop at a dead end, so it closes
  have hcycle : g.FallCycle n run := by
    refine ⟨htrail, fun m hm => ?_⟩
    have hm_run := List.mem_of_getLast? hm
    have hm_new : m ∉ placed := fun hmem => List.disjoint_of_nodup_append htidy.nodup hmem hm_run
    obtain ⟨s, hs_exit, hs⟩ := falls_of_unplaced h hdetached hheads
      (htidy.mem m (List.mem_append_right _ hm_run)) (fun hm_exit => hrun_exit (hm_exit ▸ hm_run))
      hm_new
    obtain hend | hend | hend := hends m hm
    · cases hs.symm.trans hend
    · exact absurd (hs.unique hend) hs_exit
    · exact hend
  refine ⟨hcycle, hdetached.append h htrail hends fun m hm => ?_⟩
  obtain ⟨last, hlast, hcloses⟩ := hcycle.exists_last
  rw [h.unique hexit hm hcloses]
  exact List.mem_of_getLast? hlast

/-- When all paths are placed, the nodes that wait place the cycles, each from its first node. -/
theorem exists_cycles_placed (h : g.Unshared) {ws placed : List Node} (hplaced : g.Tidy placed)
    (hdetached : g.Detached placed) (hheads : ∀ n ∈ g.nodes, g.IsHead n → n ∈ placed)
    (hws : ws.Sublist g.nodes) (hall : ∀ n ∈ g.nodes, n ≠ .exit → n ∈ placed ∨ n ∈ ws) :
    ∃ firsts cycles, firsts.Sublist ws ∧
      List.Forall₂ (fun n c => g.FallCycle n c ∧ ∀ m ∈ c, g.rank n ≤ g.rank m) firsts cycles ∧
      ws.foldl g.place placed = placed ++ cycles.flatten := by
  induction ws generalizing placed with
  | nil => exact ⟨[], [], List.Sublist.refl _, .nil, by simp⟩
  | cons n ws ih =>
    have hn : n ∈ g.nodes := hws.subset List.mem_cons_self
    have hws' : ws.Sublist g.nodes := (List.sublist_cons_self n ws).trans hws
    obtain ⟨run, hrun, hplace⟩ := exists_place_eq h.enclosed placed hn
    have htidy : g.Tidy (placed ++ run) := hplace ▸ hplaced.place h.enclosed hn
    rw [List.foldl_cons, hplace]
    by_cases hdone : n = .exit ∨ n ∈ placed
    · -- nothing is left to place from here
      obtain rfl : run = [] := by
        cases hrun with
        | stop => rfl
        | step hexit hnew => exact absurd hdone (not_or.mpr ⟨hexit, hnew⟩)
      rw [List.append_nil] at htidy ⊢
      have hall' : ∀ m ∈ g.nodes, m ≠ .exit → m ∈ placed ∨ m ∈ ws := by
        intro m hm hm_exit
        rcases hall m hm hm_exit with hm | hm
        · exact .inl hm
        · rcases List.mem_cons.mp hm with rfl | hm
          · exact .inl (hdone.resolve_left hm_exit)
          · exact .inr hm
      obtain ⟨firsts, cycles, hfirsts, hcycles, heq⟩ := ih hplaced hdetached hheads hws' hall'
      exact ⟨firsts, cycles, hfirsts.cons n, hcycles, heq⟩
    · rw [not_or] at hdone
      obtain ⟨hcycle, hdetached'⟩ :=
        fallCycle_of_unplaced h hplaced hdetached hheads hn hdone.1 hdone.2 hrun
      -- the nodes of the cycle wait, and all that wait come after this one in source order
      have hfirst : ∀ m ∈ run, g.rank n ≤ g.rank m := by
        intro m hm
        have hm_new : m ∉ placed := fun hmem => List.disjoint_of_nodup_append htidy.nodup hmem hm
        have hm_nodes : m ∈ g.nodes := htidy.mem m (List.mem_append_right _ hm)
        have hm_exit : m ≠ .exit := fun heq => htidy.exit (List.mem_append_right _ (heq ▸ hm))
        have hranks := (pairwise_idxOf_lt g.nodup_nodes).sublist hws
        rcases List.mem_cons.mp ((hall m hm_nodes hm_exit).resolve_left hm_new) with rfl | hm
        · exact Nat.le_refl _
        · exact Nat.le_of_lt ((List.pairwise_cons.mp hranks).1 m hm)
      have hall' : ∀ m ∈ g.nodes, m ≠ .exit → m ∈ placed ++ run ∨ m ∈ ws := by
        intro m hm hm_exit
        rcases hall m hm hm_exit with hm | hm
        · exact .inl (List.mem_append_left _ hm)
        · rcases List.mem_cons.mp hm with rfl | hm
          · exact .inl (List.mem_append_right _ hcycle.mem)
          · exact .inr hm
      obtain ⟨firsts, cycles, hfirsts, hcycles, heq⟩ := ih htidy hdetached'
        (fun m hm hhead => List.mem_append_left _ (hheads m hm hhead)) hws' hall'
      refine ⟨n :: firsts, run :: cycles, hfirsts.cons_cons n, .cons ⟨hcycle, hfirst⟩ hcycles, ?_⟩
      rw [heq, List.flatten_cons, List.append_assoc]

/-! ### The whole sequence -/

/-- The paths of a graph, in source order of the nodes that they begin with, that of the entry
first, and its cycles, each from its first node in source order, in source order of these nodes. -/
structure Decomposes (g : Graph) (chains cycles : List (List Node)) : Prop where
  paths : ∃ heads, g.Enumerates heads g.IsHead ∧ heads.head? = some .entry ∧
    List.Forall₂ g.FallChain heads chains
  rounds : ∃ firsts, g.Enumerates firsts g.IsCycleFirst ∧ List.Forall₂ g.FallCycle firsts cycles

theorem Unshared.head?_heads (h : g.Unshared) : g.heads.head? = some .entry := by
  have hentry : g.IsHead .entry := ⟨by simp, h.entry⟩
  have hnodes : g.nodes = .entry :: g.nodes.tail := rfl
  rw [heads, hnodes, List.filter_cons_of_pos (by simpa using hentry)]
  rfl

/-- The first nodes of the cycles are those that the cycles are placed from. -/
theorem enumerates_firsts (h : g.Unshared) {chains cycles : List (List Node)} {firsts : List Node}
    (hchains : ∀ c ∈ chains, ∃ n, g.FallChain n c) (horder : firsts.Sublist g.nodes)
    (hcycles : List.Forall₂ (fun n c => g.FallCycle n c ∧ ∀ m ∈ c, g.rank n ≤ g.rank m) firsts cycles)
    (hall : ∀ n ∈ g.nodes, n ≠ .exit → n ∈ chains.flatten ++ cycles.flatten) :
    g.Enumerates firsts g.IsCycleFirst := by
  refine ⟨horder, fun n => ⟨fun hn => ?_, ?_⟩⟩
  · obtain ⟨c, -, hcycle, hleast⟩ := exists_of_forall₂_left hcycles hn
    refine ⟨horder.subset hn, hcycle.transGen hcycle.mem hcycle.mem, fun m hm => ?_⟩
    exact hleast m (hcycle.mem_of_reaches hcycle.mem hm)
  · rintro ⟨hn, hon, hleast⟩
    have hexit : n ≠ .exit := by
      obtain ⟨s, hs, -⟩ := Relation.TransGen.head'_iff.mp hon
      exact h.ne_exit hs
    rcases List.mem_append.mp (hall n hn hexit) with hmem | hmem
    · -- a chain ends, so no node of one is on a cycle
      obtain ⟨c, hc, hnc⟩ := List.mem_flatten.mp hmem
      obtain ⟨k, hchain⟩ := hchains c hc
      exact absurd hon (hchain.not_onCycle h.exit hnc)
    · -- the cycle through the node has one first node
      obtain ⟨c, hc, hnc⟩ := List.mem_flatten.mp hmem
      obtain ⟨k, hk, hcycle, hleast'⟩ := exists_of_forall₂_right hcycles hc
      have hreach : g.Reaches n k := (hcycle.transGen hnc hcycle.mem).to_reflTransGen
      have hrank : g.rank n = g.rank k := Nat.le_antisymm (hleast k hreach) (hleast' n hnc)
      rwa [(List.idxOf_inj hn).mp hrank]

/-- The nodes in front of the exit are the paths and then the cycles. -/
theorem exists_decomposes (h : g.Unshared) :
    ∃ chains cycles, g.Decomposes chains cycles ∧ g.front = chains.flatten ++ cycles.flatten := by
  obtain ⟨chains, hchains, hplaced, hdetached⟩ := exists_chains_taken h (List.append_nil g.nodes)
  have htaken : g.taken.placed = chains.flatten := hplaced
  have htidy : g.Tidy chains.flatten := htaken ▸ tidy_taken h.enclosed
  -- every head has a chain, so what waits is on cycles
  have hheads : ∀ n ∈ g.nodes, g.IsHead n → n ∈ chains.flatten := by
    intro n hn hhead
    obtain ⟨c, hc, hchain⟩ := exists_of_forall₂_left hchains
      (List.mem_filter.mpr ⟨hn, decide_eq_true hhead⟩)
    exact List.mem_flatten.mpr ⟨c, hc, hchain.mem⟩
  have hall : ∀ n ∈ g.nodes, n ≠ .exit → n ∈ chains.flatten ∨ n ∈ g.taken.waiting := by
    intro n hn hexit
    have hmem := mem_taken g hn hexit
    rwa [htaken, List.mem_append] at hmem
  obtain ⟨firsts, cycles, hfirsts, hcycles, heq⟩ :=
    exists_cycles_placed h htidy hdetached hheads (waiting_sublist g) hall
  have hfront : g.front = chains.flatten ++ cycles.flatten := by
    rw [front, htaken, heq]
  have hpaths : ∀ c ∈ chains, ∃ n, g.FallChain n c := by
    intro c hc
    obtain ⟨n, -, hchain⟩ := exists_of_forall₂_right hchains hc
    exact ⟨n, hchain⟩
  have henumerates : g.Enumerates firsts g.IsCycleFirst := by
    refine enumerates_firsts h hpaths (hfirsts.trans (waiting_sublist g)) hcycles ?_
    intro n hn hexit
    rw [← hfront]
    exact mem_front g hn hexit
  refine ⟨chains, cycles, ⟨⟨g.heads, enumerates_heads g, h.head?_heads, hchains⟩, firsts, henumerates,
    ?_⟩, hfront⟩
  exact hcycles.imp fun _ _ hcycle => hcycle.1

/-- A node of a list without repeats does not stand directly behind one that it precedes. -/
theorem not_infix_of_sublist {ns : List Node} (hnodup : ns.Nodup) {m n : Node}
    (h : [n, m].Sublist ns) : ¬[m, n] <:+: ns := by
  intro hinfix
  have hlt := (pairwise_idxOf_lt hnodup).sublist h
  have hgt := (pairwise_idxOf_lt hnodup).sublist hinfix.sublist
  rw [List.pairwise_pair] at hlt hgt
  omega

/-- The edge that closes a cycle does not lead to the node directly behind. -/
theorem FallCycle.not_infix_last {n last : Node} {c ns : List Node} (h : g.FallCycle n c)
    (hlast : last ∈ c.getLast?) (hc : c <:+: ns) (hnodup : ns.Nodup) : ¬[last, n] <:+: ns := by
  obtain ⟨t, rfl⟩ : ∃ t, c = n :: t := by
    cases c with
    | nil => cases h.head
    | cons k t => exact ⟨t, by rw [Option.some.inj h.head]⟩
  cases t with
  | nil =>
    -- the node falls into itself
    obtain rfl : n = last := Option.some.inj hlast
    intro hinfix
    have hpair := hnodup.sublist hinfix.sublist
    simp at hpair
  | cons k t =>
    rw [List.getLast?_cons_cons] at hlast
    refine not_infix_of_sublist hnodup (List.Sublist.trans ?_ hc.sublist)
    exact List.cons_sublist_cons.mpr (List.singleton_sublist.mpr (List.mem_of_getLast? hlast))

/-- A node that control falls out of is on a path or on a cycle that stands in the sequence. -/
theorem exists_part_of_falls (h : g.Unshared) {m s : Node} (hfall : g.FallsInto m s) :
    ∃ c n, m ∈ c ∧ c <:+: g.sequence ∧ (g.FallChain n c ∨ g.FallCycle n c) := by
  obtain ⟨chains, cycles, hparts, hfront⟩ := exists_decomposes h
  have hmem := mem_front g (mem_nodes_of_next? hfall) (h.ne_exit hfall)
  rw [hfront, List.mem_append, List.mem_flatten, List.mem_flatten] at hmem
  rw [sequence_eq_front, hfront]
  rcases hmem with ⟨c, hc, hm⟩ | ⟨c, hc, hm⟩
  · obtain ⟨heads, -, -, hchains⟩ := hparts.paths
    obtain ⟨n, -, hchain⟩ := exists_of_forall₂_right hchains hc
    refine ⟨c, n, hm, (List.infix_of_mem_flatten hc).trans ?_, .inl hchain⟩
    rw [List.append_assoc]
    exact (List.prefix_append _ _).isInfix
  · obtain ⟨firsts, -, hcycles⟩ := hparts.rounds
    obtain ⟨n, -, hcycle⟩ := exists_of_forall₂_right hcycles hc
    exact ⟨c, n, hm, (List.infix_of_mem_flatten hc).trans (List.infix_append _ _ _), .inr hcycle⟩

/-- Off the cycles, control falls into the node directly behind or into the exit. -/
theorem infix_of_falls (h : g.Unshared) {m s : Node} (hfall : g.FallsInto m s) (hs : s ≠ .exit)
    (hcycle : ¬g.OnCycle m) : [m, s] <:+: g.sequence := by
  obtain ⟨c, n, hm, hc, hchain | hround⟩ := exists_part_of_falls h hfall
  · exact (hchain.infix_of_falls hm hfall hs).trans hc
  · exact absurd (hround.transGen hm hm) hcycle

/-- On a cycle, exactly one edge does not lead to the node directly behind. -/
theorem existsUnique_break (h : g.Unshared) {n : Node} (hn : g.OnCycle n) :
    ∃! m, g.Reaches n m ∧ ∀ s, g.FallsInto m s → ¬[m, s] <:+: g.sequence := by
  obtain ⟨s, hfall, -⟩ := Relation.TransGen.head'_iff.mp hn
  obtain ⟨c, k, hmem, hc, hchain | hround⟩ := exists_part_of_falls h hfall
  · exact absurd hn (hchain.not_onCycle h.exit hmem)
  · obtain ⟨last, hlast, hcloses⟩ := hround.exists_last
    refine ⟨last, ⟨hround.reaches_last hmem hlast, fun s hs => ?_⟩, fun m hm => ?_⟩
    · rw [hs.unique hcloses]
      exact hround.not_infix_last hlast hc (nodup_sequence h.enclosed)
    · -- every other node of the cycle is followed by the one that it falls into
      by_contra hne
      have hmc := hround.mem_of_reaches hmem hm.1
      have hm_last : m ∉ c.getLast? :=
        fun hm_last => hne (Option.some.inj (hm_last.symm.trans hlast))
      obtain ⟨s, hs, -⟩ := Relation.TransGen.head'_iff.mp (hround.transGen hmc hmc)
      exact hm.2 s hs ((hround.infix_of_falls hmc hm_last hs).trans hc)

/-- **The executable sequence is made of the paths, the cycles and the exit.**  So control falls
into the node directly behind, except into the exit and along exactly one edge of each cycle. -/
theorem sequence_decomposes (h : g.Unshared) :
    (∃ chains cycles, g.Decomposes chains cycles ∧
      g.sequence = chains.flatten ++ cycles.flatten ++ [.exit]) ∧
    (∀ m s, g.FallsInto m s → s ≠ .exit → ¬g.OnCycle m → [m, s] <:+: g.sequence) ∧
    ∀ n, g.OnCycle n → ∃! m, g.Reaches n m ∧ ∀ s, g.FallsInto m s → ¬[m, s] <:+: g.sequence := by
  refine ⟨?_, fun m s => infix_of_falls h, fun n => existsUnique_break h⟩
  obtain ⟨chains, cycles, hparts, hfront⟩ := exists_decomposes h
  exact ⟨chains, cycles, hparts, by rw [sequence_eq_front, hfront]⟩

/-- A path whose first node comes after the second in source order, two nodes in a circle, and one
that falls into itself. -/
def braid : Graph :=
  { blocks := [
      { label := "A", edges := { next := some .exit } },
      { label := "B", edges := { next := some (.block 4) } },
      { label := "C", edges := { next := some (.block 0) } },
      { label := "D", edges := { next := some (.block 3) } },
      { label := "E", edges := { next := some (.block 1) } },
      { label := "F" }] }

example : braid.sequence =
    [.entry, .block 2, .block 0, .block 5, .block 1, .block 4, .block 3, .exit] := by
  decide

/-- It is cut into paths and cycles, and one edge of the longer cycle is broken. -/
theorem sequence_decomposes_braid :
    (∃ chains cycles, braid.Decomposes chains cycles ∧
      braid.sequence = chains.flatten ++ cycles.flatten ++ [.exit]) ∧
    braid.OnCycle (.block 4) ∧ ∃! m, braid.Reaches (.block 4) m ∧
      ∀ s, braid.FallsInto m s → ¬[m, s] <:+: braid.sequence := by
  have hforth : braid.FallsInto (.block 4) (.block 1) := rfl
  have hback : braid.FallsInto (.block 1) (.block 4) := rfl
  have hcycle : braid.OnCycle (.block 4) := .tail (.single hforth) hback
  obtain ⟨hparts, -, hbreak⟩ := sequence_decomposes (g := braid) (by decide)
  exact ⟨hparts, hcycle, hbreak _ hcycle⟩

end KernelIR.Source.Graph
