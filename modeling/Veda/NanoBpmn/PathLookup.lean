import Mathlib.Data.List.Induction
import Veda.NanoBpmn.ProcessSource

set_option autoImplicit false

/-!
# Paths in a process file

The nodes of a process file lie in an arena under numbers, and a path of tags is looked up from one
of them. The lookup keeps one current node: at a tag it goes to the first child that has it, and
stays where it is when there is none; wherever the last tag of the path stands, all children with it
are collected. So nodes on a wrong level are collected where a level is missing or the last tag
occurs before the end, and nodes behind other children than the first are not.

## Main definitions

* `NanoBpmn.Arena` — the nodes of a process file; `NanoBpmn.Arena.startElement` adds one.
* `NanoBpmn.Arena.getIdxsOfPath` — the lookup.
* `NanoBpmn.Arena.Chain` — a node is reached by children with some tags in turn.
* `NanoBpmn.Arena.PathFits` — the paths that are looked up exactly.

## Main results

* `NanoBpmn.Arena.getIdxsOfPath_exact_iff` — when exactly the reached nodes are found.
* `NanoBpmn.Arena.Shows.followPath` — the lookup on the subtrees of the nodes.
-/

namespace Veda.NanoBpmn

/-! ## The arena -/

/-- A node of the arena: its tag and its place in the tree. -/
structure Node where
  tag : String
  parent : Option ℕ
  children : List ℕ
  deriving DecidableEq, Repr

def childrenAt (nodes : List Node) (i : ℕ) : List ℕ := ((nodes[i]?).map Node.children).getD []

def parentAt (nodes : List Node) (i : ℕ) : Option ℕ := (nodes[i]?).bind Node.parent

/-- The nodes of a process file. Their numbers are given in the order of the start tags, so that the
document order is the order of the numbers. -/
structure Arena where
  nodes : List Node
  mem_children : ∀ i c, c ∈ childrenAt nodes i ↔ parentAt nodes c = some i
  lt_of_parent : ∀ c i, parentAt nodes c = some i → i < c
  ascending : ∀ i, (childrenAt nodes i).Pairwise (· < ·)

namespace Arena

/-- The arena of a file without elements. -/
def root : Arena where
  nodes := [⟨"", none, []⟩]
  mem_children i c := by
    cases i <;> cases c <;> simp [childrenAt, parentAt]
  lt_of_parent c i h := by
    cases c <;> simp [parentAt] at h
  ascending i := by
    cases i <;> simp [childrenAt]

section Start

variable (nodes : List Node) {cur : ℕ} (tag : String)

/-- The nodes with a new last child of the node `cur`. -/
def withChild (nodes : List Node) (cur : ℕ) (tag : String) : List Node :=
  nodes.modify cur (fun n => { n with children := n.children ++ [nodes.length] }) ++
    [⟨tag, some cur, []⟩]

theorem childrenAt_withChild (hcur : cur < nodes.length) (i : ℕ) :
    childrenAt (withChild nodes cur tag) i =
      if i = cur then childrenAt nodes i ++ [nodes.length] else childrenAt nodes i := by
  unfold childrenAt withChild
  rw [List.getElem?_append, List.length_modify]
  split_ifs with hlt heq heq
  · rw [heq, List.getElem?_modify_eq, List.getElem?_eq_getElem hcur]
    rfl
  · rw [List.getElem?_modify_ne _ _ (Ne.symm heq)]
  · omega
  · rw [List.getElem?_eq_none (Nat.not_lt.mp hlt)]
    cases i - nodes.length <;> rfl

theorem parentAt_withChild (c : ℕ) :
    parentAt (withChild nodes cur tag) c =
      if c = nodes.length then some cur else parentAt nodes c := by
  unfold parentAt withChild
  rw [List.getElem?_append, List.length_modify]
  split_ifs with hlt heq heq
  · omega
  · rw [List.getElem?_modify]
    cases nodes[c]? with
    | none => rfl
    | some n => by_cases h : cur = c <;> simp [h]
  · rw [heq, Nat.sub_self]
    rfl
  · rw [List.getElem?_eq_none (by simp; omega), List.getElem?_eq_none (Nat.not_lt.mp hlt)]

end Start

variable (t : Arena)

def children (i : ℕ) : List ℕ := childrenAt t.nodes i

def tagAt (i : ℕ) : Option String := (t.nodes[i]?).map Node.tag

theorem lt_length_of_mem {i c : ℕ} (h : c ∈ t.children i) : c < t.nodes.length := by
  have hparent := (t.mem_children i c).mp h
  by_contra hge
  rw [parentAt, List.getElem?_eq_none (Nat.not_lt.mp hge)] at hparent
  cases hparent

/-- `start_create_node`: a new node is the last child of the current one. -/
def startElement (cur : ℕ) (hcur : cur < t.nodes.length) (tag : String) : Arena where
  nodes := withChild t.nodes cur tag
  mem_children i c := by
    rw [childrenAt_withChild _ _ hcur, parentAt_withChild]
    by_cases hc : c = t.nodes.length
    · have hold : ∀ i, c ∉ childrenAt t.nodes i := fun i hmem =>
        absurd (t.lt_length_of_mem hmem) (Nat.not_lt.mpr hc.ge)
      by_cases hi : i = cur
      · simp [hc, hi]
      · simpa [hc, hi, Ne.symm hi] using hc ▸ hold i
    · rw [if_neg hc, ← t.mem_children i c]
      split_ifs
      · simp [hc]
      · rfl
  lt_of_parent c i h := by
    rw [parentAt_withChild] at h
    split_ifs at h with hc
    · cases h
      omega
    · exact t.lt_of_parent c i h
  ascending i := by
    rw [childrenAt_withChild _ _ hcur]
    split_ifs
    · refine List.pairwise_append.mpr ⟨t.ascending i, List.pairwise_singleton _ _, ?_⟩
      intro c hc k hk
      rw [List.mem_singleton.mp hk]
      exact t.lt_length_of_mem hc
    · exact t.ascending i

/-! ## The lookup -/

/-- The children of a node with a tag. -/
def namedChildren (i : ℕ) (p : String) : List ℕ :=
  (t.children i).filter fun c => t.tagAt c = some p

/-- The loop over the tags of a path: at the tag `last` all children with it are collected and the
last one is the next node, at another tag the first child with it is. Without such a child the node
stays the same. -/
def followPath (last : String) : ℕ → List String → List ℕ
  | _, [] => []
  | cur, p :: path =>
    let found := t.namedChildren cur p
    if p = last then found ++ followPath last (found.getLast?.getD cur) path
    else followPath last (found.head?.getD cur) path

def getIdxsOfPath (inNode : ℕ) (path : List String) : List ℕ :=
  match path.getLast? with
  | none => []
  | some last => t.followPath last inNode path

/-- The node `n` is reached from a node by children with some tags in turn. -/
inductive Chain : ℕ → List String → ℕ → Prop
  | nil (i : ℕ) : Chain i [] i
  | cons {i c n : ℕ} {p : String} {path : List String} :
      c ∈ t.namedChildren i p → Chain c path n → Chain i (p :: path) n

/-- What the lookup is for: exactly the nodes that are reached by the path, each once and in the
order of the document. -/
structure IsExact (i : ℕ) (path : List String) (found : List ℕ) : Prop where
  ordered : found.Pairwise (· < ·)
  mem_iff : ∀ n, n ∈ found ↔ path ≠ [] ∧ t.Chain i path n

/-! ## When it is exact -/

/-- Where the lookup stands behind some tags that are not collected: at the first child with each
tag, or at the same node where there is none. -/
def stand (i : ℕ) (names : List String) : ℕ :=
  names.foldl (fun i p => (t.namedChildren i p).head?.getD i) i

/-- Each tag has a child of the node where the lookup stands. -/
def AllFound : ℕ → List String → Prop
  | _, [] => True
  | i, p :: names => ∃ c, (t.namedChildren i p).head? = some c ∧ AllFound c names

/-- Wherever the last tag stands in the path, no child with it is met. -/
def NoneMet (i : ℕ) (last : String) (path : List String) : Prop :=
  ∀ names rest, path = names ++ last :: rest → t.namedChildren (t.stand i names) last = []

/-- The paths that are looked up exactly: each tag before the last one is found, is not the last
one, and leads to no other node that has a child with the last one; or nothing is reached, and no
child with the last tag is met on the way either. -/
def PathFits (i : ℕ) (path : List String) : Prop :=
  ∀ names last, path = names ++ [last] →
    (t.AllFound i names ∧ last ∉ names ∧
      ∀ c, t.Chain i names c → c ≠ t.stand i names → t.namedChildren c last = []) ∨
    ((∀ n, ¬ t.Chain i path n) ∧ t.NoneMet i last path)

variable {t : Arena} {i c n : ℕ} {p last : String} {names rest path : List String}

theorem mem_namedChildren : c ∈ t.namedChildren i p ↔ c ∈ t.children i ∧ t.tagAt c = some p := by
  rw [namedChildren, List.mem_filter, decide_eq_true_iff]

theorem Chain.le (h : t.Chain i path n) : i + path.length ≤ n := by
  induction h with
  | nil i => exact Nat.le_refl _
  | @cons i c n p path hc _ ih =>
    have hlt := t.lt_of_parent c i ((t.mem_children i c).mp (mem_namedChildren.mp hc).1)
    rw [List.length_cons]
    omega

theorem chain_append {path' : List String} :
    t.Chain i (path ++ path') n ↔ ∃ c, t.Chain i path c ∧ t.Chain c path' n := by
  induction path generalizing i with
  | nil =>
    refine ⟨fun h => ⟨i, .nil i, h⟩, ?_⟩
    rintro ⟨c, ⟨⟩, h⟩
    exact h
  | cons p path ih =>
    constructor
    · rintro (_ | ⟨hc, h⟩)
      obtain ⟨c', hfirst, hsecond⟩ := ih.mp h
      exact ⟨c', .cons hc hfirst, hsecond⟩
    · rintro ⟨c', _ | ⟨hc, hfirst⟩, hsecond⟩
      exact .cons hc (ih.mpr ⟨c', hfirst, hsecond⟩)

theorem chain_concat :
    t.Chain i (names ++ [p]) n ↔ ∃ c, t.Chain i names c ∧ n ∈ t.namedChildren c p := by
  rw [chain_append]
  refine exists_congr fun c => and_congr_right fun _ => ⟨?_, fun h => .cons h (.nil n)⟩
  rintro (_ | ⟨hc, _ | _⟩)
  exact hc

theorem parent_unique {i' : ℕ} {p' : String} (h : c ∈ t.namedChildren i p)
    (h' : c ∈ t.namedChildren i' p') : i = i' := by
  have hi := (t.mem_children i c).mp (mem_namedChildren.mp h).1
  have hi' := (t.mem_children i' c).mp (mem_namedChildren.mp h').1
  exact Option.some.inj (hi.symm.trans hi')

/-- **The level of a node** is that of every path that reaches it. -/
theorem Chain.length_eq {path' : List String} (h : t.Chain i path n) (h' : t.Chain i path' n) :
    path.length = path'.length := by
  induction path using List.reverseRecOn generalizing path' n with
  | nil =>
    cases h
    have := h'.le
    rw [List.length_nil]
    omega
  | append_singleton path p ih =>
    rcases List.eq_nil_or_concat' path' with rfl | ⟨names, p', rfl⟩
    · cases h'
      have := h.le
      rw [List.length_append, List.length_singleton] at this
      omega
    · obtain ⟨c, hfirst, hc⟩ := chain_concat.mp h
      obtain ⟨c', hfirst', hc'⟩ := chain_concat.mp h'
      obtain rfl := parent_unique hc hc'
      rw [List.length_append, List.length_append, ih hfirst hfirst']
      rfl

theorem exists_chain_stand (t : Arena) (i : ℕ) (names : List String) :
    ∃ met, t.Chain i met (t.stand i names) ∧ met.length ≤ names.length ∧
      (met.length = names.length → met = names ∧ t.AllFound i names) := by
  induction names generalizing i with
  | nil => exact ⟨[], .nil i, Nat.le_refl _, fun _ => ⟨rfl, trivial⟩⟩
  | cons p names ih =>
    cases hfirst : (t.namedChildren i p).head? with
    | none =>
      obtain ⟨met, hchain, hle, -⟩ := ih i
      refine ⟨met, ?_, hle.trans (Nat.le_succ _), fun heq => absurd heq (Nat.lt_succ_of_le hle).ne⟩
      rw [stand, List.foldl_cons, hfirst]
      exact hchain
    | some c =>
      obtain ⟨met, hchain, hle, hall⟩ := ih c
      refine ⟨p :: met, ?_, Nat.succ_le_succ hle, fun heq => ?_⟩
      · rw [stand, List.foldl_cons, hfirst]
        exact .cons (List.mem_of_mem_head? hfirst) hchain
      · obtain ⟨rfl, hfound⟩ := hall (Nat.succ.inj heq)
        exact ⟨rfl, c, hfirst, hfound⟩

theorem AllFound.chain (h : t.AllFound i names) : t.Chain i names (t.stand i names) := by
  induction names generalizing i with
  | nil => exact .nil i
  | cons p names ih =>
    obtain ⟨c, hfirst, hfound⟩ := h
    rw [stand, List.foldl_cons, hfirst]
    exact .cons (List.mem_of_mem_head? hfirst) (ih hfound)

theorem AllFound.ne_nil (h : t.AllFound i (names ++ p :: rest)) :
    t.namedChildren (t.stand i names) p ≠ [] := by
  induction names generalizing i with
  | nil =>
    obtain ⟨c, hfirst, -⟩ := h
    exact fun hnil => by rw [show t.stand i [] = i from rfl] at hnil; simp [hnil] at hfirst
  | cons p' names ih =>
    obtain ⟨c, hfirst, hfound⟩ := h
    rw [stand, List.foldl_cons, hfirst]
    exact ih hfound

theorem followPath_of_noneMet (h : t.NoneMet i last path) : t.followPath last i path = [] := by
  induction path generalizing i with
  | nil => rfl
  | cons p path ih =>
    have hnext : t.NoneMet ((t.namedChildren i p).head?.getD i) last path :=
      fun names rest heq => h (p :: names) rest (congrArg _ heq)
    rw [followPath]
    split_ifs with hp
    · have hnil : t.namedChildren i p = [] := hp ▸ h [] path (congrArg (· :: path) hp)
      rw [hnil] at hnext ⊢
      exact ih hnext
    · exact ih hnext

/-- **The first child with the last tag** that is met is collected. -/
theorem mem_followPath (hbefore : ∀ names' rest', names = names' ++ last :: rest' →
      t.namedChildren (t.stand i names') last = [])
    (hc : c ∈ t.namedChildren (t.stand i names) last) :
    c ∈ t.followPath last i (names ++ last :: rest) := by
  induction names generalizing i with
  | nil =>
    rw [List.nil_append, followPath, if_pos rfl]
    exact List.mem_append_left _ hc
  | cons p names ih =>
    have hnext := @ih ((t.namedChildren i p).head?.getD i)
      (fun names' rest' heq => hbefore (p :: names') rest' (congrArg _ heq)) hc
    rw [List.cons_append, followPath]
    split_ifs with hp
    · have hnil : t.namedChildren i p = [] :=
        hp ▸ hbefore [] names (congrArg (· :: names) hp)
      rw [hnil] at hnext ⊢
      exact hnext
    · exact hnext

theorem followPath_concat (h : last ∉ names) :
    t.followPath last i (names ++ [last]) = t.namedChildren (t.stand i names) last := by
  induction names generalizing i with
  | nil => rw [List.nil_append, followPath, if_pos rfl, followPath, List.append_nil]; rfl
  | cons p names ih =>
    rw [List.mem_cons, not_or] at h
    rw [List.cons_append, followPath, if_neg (Ne.symm h.1), ih h.2]
    rfl

theorem exists_first_met (h : ¬ t.NoneMet i last path) :
    ∃ names rest c, path = names ++ last :: rest ∧
      (∀ names' rest', names = names' ++ last :: rest' →
        t.namedChildren (t.stand i names') last = []) ∧
      c ∈ t.namedChildren (t.stand i names) last := by
  simp only [NoneMet, not_forall] at h
  obtain ⟨names, rest, hpath, hmet⟩ := h
  induction hlength : names.length using Nat.strong_induction_on generalizing names rest with
  | h n ih =>
    by_cases hbefore : ∀ names' rest', names = names' ++ last :: rest' →
        t.namedChildren (t.stand i names') last = []
    · obtain ⟨c, hc⟩ := List.exists_mem_of_ne_nil _ hmet
      exact ⟨names, rest, c, hpath, hbefore, hc⟩
    · simp only [not_forall] at hbefore
      obtain ⟨names', rest', rfl, hmet'⟩ := hbefore
      refine ih names'.length ?_ names' (rest' ++ last :: rest) ?_ hmet' rfl
      · rw [← hlength, List.length_append, List.length_cons]
        omega
      · rw [hpath, List.append_assoc, List.cons_append]

/-- **The lookup is exact** when the path fits, and only then. -/
theorem getIdxsOfPath_exact_iff (t : Arena) (i : ℕ) (path : List String) :
    t.IsExact i path (t.getIdxsOfPath i path) ↔ t.PathFits i path := by
  rcases List.eq_nil_or_concat' path with rfl | ⟨names, last, rfl⟩
  · refine iff_of_true ⟨List.Pairwise.nil, fun n => ?_⟩ fun names last h => by simp at h
    exact iff_of_false List.not_mem_nil fun h => h.1 rfl
  have hlookup : t.getIdxsOfPath i (names ++ [last]) = t.followPath last i (names ++ [last]) := by
    rw [getIdxsOfPath, List.getLast?_concat]
  rw [hlookup]
  constructor
  · intro hexact names' last' heq
    obtain ⟨rfl, hlast⟩ := List.append_inj' heq rfl
    obtain rfl := List.singleton_inj.mp hlast
    by_cases hmet : t.NoneMet i last (names ++ [last])
    · refine .inr ⟨fun n hn => ?_, hmet⟩
      have hmem := (hexact.mem_iff n).mpr ⟨by simp, hn⟩
      rw [followPath_of_noneMet hmet] at hmem
      exact List.not_mem_nil hmem
    · -- the node that is met first is on the last level
      obtain ⟨before, rest, c, hpath, hbefore, hc⟩ := exists_first_met hmet
      have hfound : c ∈ t.followPath last i (names ++ [last]) := hpath ▸ mem_followPath hbefore hc
      have hreached := ((hexact.mem_iff c).mp hfound).2
      obtain ⟨met, hchain, hle, hall⟩ := exists_chain_stand t i before
      have hlevel := hreached.length_eq (chain_concat.mpr ⟨_, hchain, hc⟩)
      have hlengths := congrArg List.length hpath
      rw [List.length_append, List.length_singleton] at hlevel
      simp only [List.length_append, List.length_cons, List.length_nil] at hlevel hlengths
      obtain rfl : rest = [] := List.length_eq_zero_iff.mp (by omega)
      obtain ⟨rfl, -⟩ := List.append_inj' hpath rfl
      obtain ⟨rfl, hall⟩ := hall (by omega)
      have honce : last ∉ met := by
        intro hmem
        obtain ⟨names', rest', rfl⟩ := List.append_of_mem hmem
        exact hall.ne_nil (hbefore names' rest' rfl)
      refine .inl ⟨hall, honce, fun c' hc' hne => ?_⟩
      by_contra hnil
      obtain ⟨n, hn⟩ := List.exists_mem_of_ne_nil _ hnil
      have hmem := (hexact.mem_iff n).mpr ⟨by simp, chain_concat.mpr ⟨c', hc', hn⟩⟩
      rw [followPath_concat honce] at hmem
      exact hne (parent_unique hn hmem)
  · intro hfits
    obtain ⟨hall, honce, hother⟩ | ⟨hnone, hmet⟩ := hfits names last rfl
    · rw [followPath_concat honce]
      refine ⟨(t.ascending _).sublist List.filter_sublist, fun n => ⟨fun hn => ?_, ?_⟩⟩
      · exact ⟨by simp, chain_concat.mpr ⟨_, hall.chain, hn⟩⟩
      · rintro ⟨-, hn⟩
        obtain ⟨c, hc, hn⟩ := chain_concat.mp hn
        by_cases heq : c = t.stand i names
        · exact heq ▸ hn
        · exact absurd hn (hother c hc heq ▸ List.not_mem_nil)
    · rw [followPath_of_noneMet hmet]
      exact ⟨.nil, fun n => iff_of_false List.not_mem_nil fun h => hnone n h.2⟩

/-- A child of the root with the second tag is found, although the first tag is nowhere in the
file. -/
theorem getIdxsOfPath_missing_level :
    (root.startElement 0 (by decide) "b").getIdxsOfPath 0 ["a", "b"] = [1] ∧
      ¬ (root.startElement 0 (by decide) "b").IsExact 0 ["a", "b"]
        ((root.startElement 0 (by decide) "b").getIdxsOfPath 0 ["a", "b"]) := by
  have hfound : (root.startElement 0 (by decide) "b").getIdxsOfPath 0 ["a", "b"] = [1] := by decide
  refine ⟨hfound, fun hexact => ?_⟩
  have hreached := ((hexact.mem_iff 1).mp (by rw [hfound]; decide)).2
  exact absurd hreached.le (by decide)

/-! ## The lookup on subtrees -/

/-- The node `i` has the subtree of an element. -/
inductive Shows (t : Arena) : XNode → ℕ → Prop
  | mk {id tag : String} {attributes : Lib.HashMap String String} {elements : List XNode} {i : ℕ} :
      t.tagAt i = some tag → List.Forall₂ (Shows t) elements (t.children i) →
        Shows t (.mk id tag attributes elements) i

theorem Shows.tagAt {element : XNode} (h : t.Shows element i) : t.tagAt i = some element.tag := by
  cases h
  assumption

theorem Shows.childrenOf {element : XNode} (h : t.Shows element i) (p : String) :
    List.Forall₂ t.Shows (element.childrenOf p) (t.namedChildren i p) := by
  obtain ⟨-, hchildren⟩ := h
  refine List.rel_filter (fun element c hc => ?_) hchildren
  simp [hc.tagAt]

theorem rel_head {α β : Type} {R : α → β → Prop} {xs : List α} {ys : List β} {x : α} {y : β}
    (h : List.Forall₂ R xs ys) (hnext : R x y) : R (xs.head?.getD x) (ys.head?.getD y) := by
  cases h with
  | nil => exact hnext
  | cons hfirst _ => exact hfirst

/-- **The lookup of a path** in the arena finds the subtrees, in this order, that the lookup in the
tree finds. -/
theorem Shows.followPath {element : XNode} (h : t.Shows element i) (last : String)
    (path : List String) :
    List.Forall₂ t.Shows (element.getIdxsOfPath last path) (t.followPath last i path) := by
  induction path generalizing element i with
  | nil => exact .nil
  | cons p path ih =>
    have hfound := h.childrenOf p
    rw [XNode.getIdxsOfPath, Arena.followPath]
    split_ifs
    · refine List.rel_append hfound (ih ?_)
      rw [List.getLast?_eq_head?_reverse, List.getLast?_eq_head?_reverse]
      exact rel_head (List.rel_reverse hfound) h
    · exact ih (rel_head hfound h)

theorem Shows.followPath_child : List.Forall₂ (root.startElement 0 (by decide) "b").Shows
    ((XNode.mk "" "" ∅ [.mk "" "b" ∅ []]).getIdxsOfPath "b" ["b"])
    ((root.startElement 0 (by decide) "b").followPath "b" 0 ["b"]) :=
  Shows.followPath (.mk rfl (.cons (.mk rfl .nil) .nil)) "b" ["b"]

end Arena

end Veda.NanoBpmn
