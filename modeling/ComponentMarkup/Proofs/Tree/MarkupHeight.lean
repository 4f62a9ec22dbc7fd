import ComponentMarkup.Tree.Node

/-!
# Heights that count documents only

A script may nest without a limit, since an expression grows around what was read of it.  Documents may not, and how
deep they nest is told by a height that counts their branches and no others.  A tree can be much higher than that
only if many branches of scripts lie inside each other with no branch of a document between them.

* `Node.markupHeight` — how many branches of documents the longest path down from a node passes;
* `Node.scriptRun` — how many other branches follow each other on a path;
* `Node.height_le_run` — a tree is only as high as these two allow;
* `UpTo` — trees that are not higher than a bound.
-/

namespace ComponentMarkup.Tree

/-- What a branch adds to the height of what is below it: only branches of documents count. -/
def Kind.markupRank : Kind → Nat
  | .markup _ => 1
  | .script _ => 0
  | .fault => 0

namespace Node

mutual

/-- How many branches of documents the longest path down from a node passes. -/
def markupHeight : Node → Nat
  | leaf _ _ _ => 0
  | inner k _ _ _ _ cs => markupHeightOf cs + k.markupRank
  | fault _ _ _ _ => 0

/-- The greatest such number of several nodes. -/
def markupHeightOf : List Node → Nat
  | [] => 0
  | c :: cs => max (markupHeight c) (markupHeightOf cs)

end

mutual

/-- How many branches of scripts follow each other on a path down from a node, if there are `above` right above it. -/
def scriptRun (above : Nat) : Node → Nat
  | leaf _ _ _ => above
  | inner (.markup _) _ _ _ _ cs => max above (scriptRunOf 0 cs)
  | inner _ _ _ _ _ cs => scriptRunOf (above + 1) cs
  | fault _ _ _ _ => above

/-- The greatest such number of several nodes. -/
def scriptRunOf (above : Nat) : List Node → Nat
  | [] => above
  | c :: cs => max (scriptRun above c) (scriptRunOf above cs)

end

/-- What lies above a run, and a tree, is no more than a run for each branch of a document and one more. -/
theorem runs_le {height above rank rank' run run' : Nat} (h : height + above ≤ rank * (run + 1) + run + 1)
    (hrank : rank ≤ rank') (hrun : run ≤ run') : height + above ≤ rank' * (run' + 1) + run' + 1 := by
  have hmul := Nat.mul_le_mul hrank (Nat.add_le_add_right hrun 1)
  omega

mutual

theorem height_le_runs (above : Nat) : ∀ n : Node,
    n.height + above ≤ n.markupHeight * (n.scriptRun above + 1) + n.scriptRun above + 1
  | leaf _ _ _ => by
      rw [height, markupHeight, scriptRun]
      omega
  | fault _ _ _ _ => by
      rw [height, markupHeight, scriptRun]
      omega
  | inner kind _ _ _ _ cs => by
      cases kind with
      | markup kind =>
          have hbelow := runs_le (heightOf_le_runs 0 cs) (Nat.le_refl _) (Nat.le_max_right above (scriptRunOf 0 cs))
          rw [height, markupHeight, scriptRun, Kind.markupRank, Nat.succ_mul]
          omega
      | script | fault =>
          have hbelow := heightOf_le_runs (above + 1) cs
          rw [height, markupHeight, scriptRun, Kind.markupRank, Nat.add_zero (markupHeightOf cs)]
          · omega
          · nofun

theorem heightOf_le_runs (above : Nat) : ∀ ns : List Node,
    heightOf ns + above ≤ markupHeightOf ns * (scriptRunOf above ns + 1) + scriptRunOf above ns + 1
  | [] => by
      rw [heightOf, markupHeightOf, scriptRunOf]
      omega
  | n :: ns => by
      have hfirst := runs_le (height_le_runs above n) (Nat.le_max_left _ (markupHeightOf ns))
        (Nat.le_max_left _ (scriptRunOf above ns))
      have hothers := runs_le (heightOf_le_runs above ns) (Nat.le_max_right n.markupHeight _)
        (Nat.le_max_right (n.scriptRun above) _)
      rw [heightOf, markupHeightOf, scriptRunOf]
      omega

end

/-- **A tree is only as high** as its branches of documents and the runs between them allow. -/
theorem height_le_run (n : Node) : n.height ≤ (n.markupHeight + 1) * (n.scriptRun 0 + 1) := by
  rw [Nat.succ_mul]
  exact height_le_runs 0 n

end Node

/-- Trees that are not higher than a bound, if only branches of documents count. -/
def UpTo (bound : Nat) (nodes : List Node) : Prop :=
  ∀ n ∈ nodes, n.markupHeight ≤ bound

namespace Node

variable (f : Nat → Nat)

mutual

/-- A tree is as high wherever it stands. -/
theorem markupHeight_mapPlaces : ∀ n : Node, (n.mapPlaces f).markupHeight = n.markupHeight
  | leaf _ _ _ => rfl
  | fault _ _ _ _ => rfl
  | inner k s host c b cs => by rw [mapPlaces, markupHeight, markupHeight, markupHeightOf_mapPlacesOf cs]

theorem markupHeightOf_mapPlacesOf : ∀ ns : List Node, markupHeightOf (mapPlacesOf f ns) = markupHeightOf ns
  | [] => rfl
  | n :: ns => by
      rw [mapPlacesOf, markupHeightOf, markupHeightOf, markupHeight_mapPlaces n, markupHeightOf_mapPlacesOf ns]

end

end Node

namespace UpTo

variable {bound bound' : Nat} {nodes others : List Node} {n : Node}

theorem nil : UpTo bound [] :=
  fun _ hn => absurd hn List.not_mem_nil

theorem cons (hn : n.markupHeight ≤ bound) (h : UpTo bound nodes) : UpTo bound (n :: nodes) := by
  intro m hm
  rcases List.mem_cons.mp hm with rfl | hm
  · exact hn
  · exact h m hm

theorem append (h : UpTo bound nodes) (h' : UpTo bound others) : UpTo bound (nodes ++ others) := by
  intro m hm
  rcases List.mem_append.mp hm with hm | hm
  · exact h m hm
  · exact h' m hm

theorem single (hn : n.markupHeight ≤ bound) : UpTo bound [n] :=
  .cons hn .nil

theorem optional {c : Prop} [Decidable c] (h : UpTo bound nodes) : UpTo bound (if c then nodes else []) := by
  split
  · exact h
  · exact .nil

theorem weaken (h : UpTo bound nodes) (hle : bound ≤ bound') : UpTo bound' nodes :=
  fun n hn => Nat.le_trans (h n hn) hle

theorem heightOf (h : UpTo bound nodes) : Node.markupHeightOf nodes ≤ bound := by
  induction nodes with
  | nil => exact Nat.zero_le _
  | cons n nodes ih =>
      exact Nat.max_le.mpr ⟨h n List.mem_cons_self, ih fun m hm => h m (List.mem_cons_of_mem n hm)⟩

/-- A branch adds one to what is below it. -/
theorem markup (h : UpTo bound nodes) (kind : MarkupKind) : (Node.markup kind nodes).markupHeight ≤ bound + 1 :=
  Nat.succ_le_succ h.heightOf

end UpTo

/-- The children of a node are not higher than the node. -/
theorem Node.upTo_children (n : Node) : UpTo n.markupHeight n.children := by
  cases n with
  | leaf => exact .nil
  | fault => exact .nil
  | inner kind span host count faulty children =>
      have hbelow : UpTo (markupHeightOf children) children := by
        induction children with
        | nil => exact .nil
        | cons child children ih => exact .cons (Nat.le_max_left _ _) (ih.weaken (Nat.le_max_right _ _))
      exact hbelow.weaken (Nat.le_add_right _ _)

end ComponentMarkup.Tree
