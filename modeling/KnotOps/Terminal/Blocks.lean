import KnotOps.Terminal.Anchor

/-! Blocks in creation order.
While the anchor is the last visible bar, a new head goes to the end of the
screen.  The anchor can come to stand above a report in one way: the bulk
failure of a task clears its entries, the anchor among them, and falls back to
the head, under which the report already is. -/

namespace KnotOps.Terminal

open Machine Splice

def displayAll (blocks : List Block) : List LayoutNode :=
  blocks.flatMap Block.display

def Block.headAnchored (b : Block) (anchor : Option LayoutNode) : Bool :=
  match b.head with
  | .interactive node (_ :: _) => anchor = some node
  | _ => false

theorem Block.headAnchored_iff {b : Block} {anchor : Option LayoutNode} :
    b.headAnchored anchor = true ↔
      ∃ node report reports, b.head = .interactive node (report :: reports) ∧
        anchor = some node := by
  unfold headAnchored
  split
  · rename_i node report reports head
    simp [head]
  · rename_i other
    constructor
    · intro impossible
      cases impossible
    · rintro ⟨node, report, reports, head, -⟩
      exact absurd head (other node report reports)

/-- The visible bars are the blocks, and the anchor is the last of them or stands
above the report of a block without entries. -/
structure Ordered (blocks : List Block) (l : TaskLayout) : Prop where
  visible : l.visible = displayAll blocks
  anchored : l.anchor = (displayAll blocks).getLast? ∨
    ∃ b ∈ blocks, b.headAnchored l.anchor = true ∧ b.entries = []

theorem displayAll_split (before after : List Block) (b : Block) :
    displayAll (before ++ b :: after) = displayAll before ++ (b.display ++ displayAll after) := by
  simp [displayAll]

theorem perm_display_strategy (s : TaskRenderingStrategy) : s.display.Perm s.nodes := by
  cases s with
  | interactive node inserted => exact (List.reverse_perm inserted).cons node
  | plain ciPrefix => exact .refl _

theorem perm_flatMap_display (entries : List TaskRenderingStrategy) :
    (entries.flatMap TaskRenderingStrategy.display).Perm
      (entries.flatMap TaskRenderingStrategy.nodes) :=
  List.Perm.flatMap_left entries fun s _ => perm_display_strategy s

theorem perm_displayAll (blocks : List Block) : (displayAll blocks).Perm (liveNodes blocks) :=
  List.Perm.flatMap_left blocks fun b _ =>
    (perm_display_strategy b.head).append (perm_flatMap_display b.entries)

namespace Ordered

variable {before after : List Block} {b b' : Block} {l l' : TaskLayout}

theorem nodup {blocks : List Block} (sound : Sound (liveNodes blocks) l) :
    (displayAll blocks).Nodup :=
  (perm_displayAll blocks).nodup_iff.mpr sound.nodup

theorem disjoint (sound : Sound (liveNodes (before ++ b :: after)) l) {c : Block}
    (other : c ∈ before ∨ c ∈ after) {n : LayoutNode} (inBlock : n ∈ b.nodes)
    (inOther : n ∈ c.nodes) : False := by
  have nodup := sound.nodup
  rw [liveNodes_split, List.nodup_append'] at nodup
  obtain ⟨-, rest, first⟩ := nodup
  rcases other with member | member
  · exact first (List.mem_flatMap.mpr ⟨c, member, inOther⟩) (List.mem_append_left _ inBlock)
  · exact (List.nodup_append'.mp rest).2.2 inBlock (List.mem_flatMap.mpr ⟨c, member, inOther⟩)

theorem quietly {blocks : List Block} (h : Ordered blocks l) (quiet : l.Quietly l') :
    Ordered blocks l' := by
  obtain ⟨calls, quiet, rfl⟩ := quiet
  have none_cleared : calls.filterMap MultiCall.cleared = [] :=
    List.filterMap_eq_nil_iff.mpr fun c member => (quiet c member).2
  have visible : (l.calling calls).visible = l.visible := by
    simp [TaskLayout.visible, MultiProgress.visible, MultiProgress.cleared, TaskLayout.calling,
      none_cleared]
  exact ⟨visible.trans h.visible, h.anchored⟩

theorem visible_insertAfter {live : List LayoutNode} (sound : Sound live l) {target : LayoutNode}
    (present : target ∈ live) :
    (l.insertAfter target).2.visible = spliceAfter target (l.insertAfter target).1 l.visible := by
  have shown := sound.shown target present
  have fresh : (⟨l.nodeCounter⟩ : LayoutNode) ∉ l.multi.cleared := fun cleared =>
    sound.next_notMem (sound.cleared _ cleared)
  simp only [TaskLayout.visible, MultiProgress.visible, TaskLayout.insertAfter, TaskLayout.nextId,
    MultiProgress.cleared_insertAfter]
  exact filter_spliceAfter (by simpa using shown) (by simpa using fresh) l.multi.ordering

theorem anchor_insertAfter (target : LayoutNode) :
    (l.insertAfter target).2.anchor =
      if l.anchor = some target then some (l.insertAfter target).1 else l.anchor := rfl

theorem insertAfter (h : Ordered (before ++ b :: after) l)
    (sound : Sound (liveNodes (before ++ b :: after)) l) {target : LayoutNode}
    (front back : List LayoutNode) (display : b.display = front ++ target :: back)
    (display' : b'.display = front ++ target :: (l.insertAfter target).1 :: back)
    (unstuck : b.headAnchored l.anchor = true → b.entries ≠ []) :
    Ordered (before ++ b' :: after) (l.insertAfter target).2 := by
  have inBlock : target ∈ b.nodes := by
    rw [← Block.mem_display, display]
    simp
  have present : target ∈ liveNodes (before ++ b :: after) := by
    rw [liveNodes_split]
    exact List.mem_append_right _ (List.mem_append_left _ inBlock)
  have nodup := Ordered.nodup sound
  have split : displayAll (before ++ b :: after) =
      (displayAll before ++ front) ++ target :: (back ++ displayAll after) := by
    rw [displayAll_split, display]
    simp
  have splitNodup := nodup
  rw [split] at splitNodup
  have fresh : target ∉ displayAll before ++ front := fun member =>
    (List.nodup_append'.mp splitNodup).2.2 member List.mem_cons_self
  have spliced : displayAll (before ++ b' :: after) =
      spliceAfter target (l.insertAfter target).1 (displayAll (before ++ b :: after)) := by
    rw [split, spliceAfter_append fresh, displayAll_split, display']
    simp
  refine ⟨by rw [visible_insertAfter sound present, h.visible, spliced], ?_⟩
  rw [anchor_insertAfter, spliced]
  rcases h.anchored with last | ⟨c, member, stuck, entries⟩
  · left
    have inDisplay : target ∈ displayAll (before ++ b :: after) := by
      rw [split]
      simp
    rw [getLast?_spliceAfter inDisplay nodup, last]
  · right
    have other : c ∈ before ∨ c ∈ after := by
      rcases List.mem_append.mp member with inBefore | rest
      · exact .inl inBefore
      · rcases List.mem_cons.mp rest with same | inAfter
        · rw [same] at stuck entries
          exact absurd entries (unstuck stuck)
        · exact .inr inAfter
    obtain ⟨node, report, reports, head, is_anchor⟩ := Block.headAnchored_iff.mp stuck
    have elsewhere : l.anchor ≠ some target := fun same => by
      have here : node = target := Option.some.inj (is_anchor.symm.trans same)
      apply disjoint sound other inBlock
      simp [Block.nodes, head, TaskRenderingStrategy.nodes, here]
    rw [if_neg elsewhere]
    refine ⟨c, ?_, stuck, entries⟩
    rcases other with inBefore | inAfter
    · exact List.mem_append_left _ inBefore
    · exact List.mem_append_right _ (List.mem_cons_of_mem _ inAfter)

theorem visible_clearing (gone : List LayoutNode) (fallback : LayoutNode) :
    ((l.clearing gone).updateAnchorIfIn gone fallback).visible =
      l.visible.filter (· ∉ gone) := by
  have multi : ((l.clearing gone).updateAnchorIfIn gone fallback).multi =
      (l.clearing gone).multi := by
    unfold TaskLayout.updateAnchorIfIn
    split
    · split_ifs <;> rfl
    · rfl
  rw [TaskLayout.visible, TaskLayout.visible, multi, MultiProgress.visible, MultiProgress.visible,
    Sound.cleared_clearing, List.filter_filter]
  apply List.filter_congr
  intro n _
  simp only [List.mem_append, not_or, Bool.decide_and]
  exact Bool.and_comm _ _

theorem anchor_clearing (gone : List LayoutNode) (fallback a : LayoutNode)
    (is_anchor : l.anchor = some a) :
    ((l.clearing gone).updateAnchorIfIn gone fallback).anchor =
      some (if a ∈ gone then fallback else a) := by
  simp only [TaskLayout.updateAnchorIfIn, TaskLayout.clearing, TaskLayout.calling, is_anchor]
  by_cases cleared : a ∈ gone <;> simp [cleared, TaskLayout.setAnchor]

theorem displayAll_clear (sound : Sound (liveNodes (before ++ b :: after)) l) :
    (displayAll (before ++ b :: after)).filter (· ∉ b.entryNodes) =
      displayAll (before ++ ⟨b.head, []⟩ :: after) := by
  have nodup := (liveNodes_clear before after b).nodup_iff.mp sound.nodup
  have disjoint := (List.nodup_append'.mp nodup).2.2
  have kept : ∀ n ∈ displayAll (before ++ ⟨b.head, []⟩ :: after), n ∉ b.entryNodes :=
    fun n member => disjoint ((perm_displayAll _).subset member)
  rw [displayAll_split] at kept ⊢
  rw [displayAll_split]
  have left : Block.display ⟨b.head, []⟩ = b.head.display := by simp [Block.display]
  rw [left] at kept ⊢
  have entries : (b.entries.flatMap TaskRenderingStrategy.display).filter (· ∉ b.entryNodes) = [] := by
    apply List.filter_eq_nil_iff.mpr
    intro n member
    have cleared : n ∈ b.entryNodes := (perm_flatMap_display b.entries).subset member
    simpa using cleared
  rw [Block.display, List.append_assoc, List.filter_append, List.filter_append, List.filter_append,
    entries, List.nil_append, ← List.filter_append, ← List.filter_append]
  apply List.filter_eq_self.mpr
  intro n member
  simpa using kept n member

theorem displayAll_after (sound : Sound (liveNodes (before ++ b :: after)) l) {a : LayoutNode}
    (last : (displayAll (before ++ b :: after)).getLast? = some a) (inBlock : a ∈ b.nodes) :
    displayAll after = [] := by
  rcases List.eq_nil_or_concat (displayAll after) with none | ⟨init, z, shown⟩
  · exact none
  · exfalso
    rw [displayAll_split, shown, List.concat_eq_append, ← List.append_assoc, ← List.append_assoc,
      List.getLast?_concat, Option.some.injEq] at last
    have member : a ∈ displayAll after := by
      rw [shown, last]
      simp
    obtain ⟨c, inAfter, inOther⟩ := List.mem_flatMap.mp member
    exact disjoint sound (.inr inAfter) inBlock (Block.mem_display.mp inOther)

theorem clear (h : Ordered (before ++ b :: after) l)
    (sound : Sound (liveNodes (before ++ b :: after)) l) {node : LayoutNode}
    {inserted : List LayoutNode} (head : b.head = .interactive node inserted) :
    Ordered (before ++ ⟨b.head, []⟩ :: after)
      ((l.clearing b.entryNodes).updateAnchorIfIn b.entryNodes node) := by
  refine ⟨by rw [visible_clearing, h.visible, displayAll_clear sound], ?_⟩
  have live : node ∈ liveNodes (before ++ b :: after) := by
    rw [liveNodes_split]
    simp [Block.nodes, head, TaskRenderingStrategy.nodes]
  obtain ⟨a, is_anchor⟩ := sound.anchor_some live
  rw [anchor_clearing _ _ a is_anchor]
  rcases h.anchored with last | ⟨c, member, stuck, entries⟩
  · rw [is_anchor] at last
    by_cases cleared : a ∈ b.entryNodes
    · rw [if_pos cleared]
      have lastBlock := displayAll_after sound last.symm (List.mem_append_right _ cleared)
      cases inserted with
      | nil =>
        left
        rw [displayAll_split, lastBlock, head]
        simp [Block.display, TaskRenderingStrategy.display]
      | cons report reports =>
        right
        refine ⟨⟨b.head, []⟩, by simp, ?_, rfl⟩
        exact Block.headAnchored_iff.mpr ⟨node, report, reports, head, rfl⟩
    · rw [if_neg cleared]
      left
      obtain ⟨init, shown⟩ := List.getLast?_eq_some_iff.mp last.symm
      rw [← displayAll_clear sound, shown, List.filter_append]
      simp [cleared]
  · obtain ⟨top, report, reports, topHead, top_anchor⟩ := Block.headAnchored_iff.mp stuck
    have same : a = top := Option.some.inj (is_anchor.symm.trans top_anchor)
    have inOther : a ∈ c.nodes := by simp [Block.nodes, topHead, TaskRenderingStrategy.nodes, same]
    rw [is_anchor] at stuck
    right
    rcases List.mem_append.mp member with inBefore | rest
    · have kept : a ∉ b.entryNodes := fun cleared =>
        disjoint sound (.inl inBefore) (List.mem_append_right _ cleared) inOther
      rw [if_neg kept]
      exact ⟨c, List.mem_append_left _ inBefore, stuck, entries⟩
    · rcases List.mem_cons.mp rest with rfl | inAfter
      · have kept : a ∉ c.entryNodes := by simp [Block.entryNodes, entries]
        rw [if_neg kept]
        exact ⟨⟨c.head, []⟩, by simp, stuck, rfl⟩
      · have kept : a ∉ b.entryNodes := fun cleared =>
          disjoint sound (.inr inAfter) (List.mem_append_right _ cleared) inOther
        rw [if_neg kept]
        exact ⟨c, by simp [inAfter], stuck, entries⟩

theorem move (h : Ordered (before ++ b :: after) l)
    (sound : Sound (liveNodes (before ++ b :: after)) l) (moved : Move (b, l) (b', l')) :
    Ordered (before ++ b' :: after) l' := by
  cases moved with
  | quiet quiet => exact h.quietly quiet
  | @headReport _ _ node head =>
    apply h.insertAfter sound [] (b.entries.flatMap TaskRenderingStrategy.display)
    · simp [Block.display, head, TaskRenderingStrategy.display]
    · simp [Block.display, TaskRenderingStrategy.display]
    · intro stuck
      simp [Block.headAnchored, head] at stuck
  | @entryReport _ _ node inserted first rest entries =>
    apply h.insertAfter sound
      (b.head.display ++ first.flatMap TaskRenderingStrategy.display)
      (inserted.reverse ++ rest.flatMap TaskRenderingStrategy.display)
    · simp [Block.display, entries, TaskRenderingStrategy.display]
    · simp [Block.display, TaskRenderingStrategy.display]
    · intro _
      simp [entries]
  | @append _ _ top node empty last =>
    obtain ⟨front, shown⟩ := List.getLast?_eq_some_iff.mp last
    apply h.insertAfter sound front []
    · exact shown
    · rw [Block.display_append, show Block.mk b.head b.entries = b from rfl, shown]
      simp [TaskRenderingStrategy.display]
    · intro stuck
      simp [Block.headAnchored, empty] at stuck
  | clear head => exact h.clear sound head

theorem moves (h : Ordered (before ++ b :: after) l)
    (sound : Sound (liveNodes (before ++ b :: after)) l) (moved : Moves (b, l) (b', l')) :
    Ordered (before ++ b' :: after) l' := by
  generalize start : (b, l) = s at moved
  generalize last : (b', l') = t at moved
  induction moved generalizing b' l' with
  | refl =>
    obtain ⟨rfl, rfl⟩ := Prod.mk.inj (start.trans last.symm)
    exact h
  | @tail mid _ previous step ih =>
    obtain ⟨b₁, l₁⟩ := mid
    subst last
    subst start
    exact (ih rfl).move (sound.moves previous) step

theorem visible_insert {live : List LayoutNode} (sound : Sound live l) (nodup : l.visible.Nodup)
    (last : l.anchor = l.visible.getLast?) : l.insert.2.visible = l.visible ++ [l.insert.1] := by
  have fresh : (⟨l.nodeCounter⟩ : LayoutNode) ∉ l.multi.cleared := fun cleared =>
    sound.next_notMem (sound.cleared _ cleared)
  cases is_anchor : l.anchor with
  | none =>
    simp only [TaskLayout.visible, MultiProgress.visible, TaskLayout.insert, TaskLayout.nextId,
      is_anchor, MultiProgress.cleared_add]
    simp [MultiProgress.add, fresh]
  | some a =>
    have same : l.insert.2.visible = (l.insertAfter a).2.visible := by
      simp only [TaskLayout.visible, TaskLayout.insert, TaskLayout.insertAfter, is_anchor]
    rw [is_anchor] at last
    obtain ⟨init, shown⟩ := List.getLast?_eq_some_iff.mp last.symm
    rw [shown, List.nodup_append'] at nodup
    have before : a ∉ init := fun member => nodup.2.2 member List.mem_cons_self
    rw [same, visible_insertAfter sound (sound.anchor a is_anchor), shown,
      spliceAfter_append before, List.append_assoc]
    rfl

theorem insert {blocks : List Block} (h : Ordered blocks l) (sound : Sound (liveNodes blocks) l)
    (allowed : ∀ b ∈ blocks, b.headAnchored l.anchor = false) :
    Ordered (blocks ++ [⟨.interactive l.insert.1 [], []⟩]) l.insert.2 := by
  have last : l.anchor = (displayAll blocks).getLast? := by
    rcases h.anchored with last | ⟨b, member, stuck, -⟩
    · exact last
    · rw [allowed b member] at stuck
      cases stuck
  have display : displayAll (blocks ++ [⟨.interactive l.insert.1 [], []⟩]) =
      displayAll blocks ++ [l.insert.1] := by
    simp [displayAll, Block.display, TaskRenderingStrategy.display]
  rw [← h.visible] at last
  have visible := visible_insert sound (h.visible ▸ Ordered.nodup sound) last
  refine ⟨by rw [visible, h.visible, display], .inl ?_⟩
  rw [display, List.getLast?_concat]
  rfl

end Ordered

/-- An element may be created unless the anchor is the head of an element whose
own error report is on the screen. -/
def SessionOp.KeepsBlocks (s : Session) (op : SessionOp) : Prop :=
  op.creates = true → ∀ b ∈ s.blocks, b.headAnchored s.screen.layout.anchor = false

instance (s : Session) (op : SessionOp) : Decidable (op.KeepsBlocks s) :=
  inferInstanceAs (Decidable (_ → _))

namespace Session

structure OrderedSession (s : Session) : Prop where
  sound : s.SoundSession
  ordered : Ordered s.blocks s.screen.layout

theorem new_ordered (clock : Nat → Instant) : (new clock).OrderedSession :=
  ⟨new_sound clock, rfl, .inl rfl⟩

theorem step_ordered {s next : Session} {op : SessionOp} (h : s.OrderedSession)
    (allowed : op.KeepsBlocks s) (taken : s.step op = some next) : next.OrderedSession := by
  refine ⟨step_sound h.sound taken, ?_⟩
  have sound := h.sound.sound
  have ordered := h.ordered
  cases creation : op.creates with
  | false =>
    obtain ⟨-, before, b, b', after, blocks, nextBlocks, moves⟩ :=
      step_calls h.sound.tidy creation taken
    rw [blocks] at sound ordered
    rw [nextBlocks]
    exact ordered.moves sound moves
  | true =>
    obtain ⟨-, b, nextBlocks, moves⟩ := step_creates h.sound.tidy creation taken
    have grown : Sound (liveNodes (s.blocks ++ [⟨.interactive s.screen.layout.insert.1 [], []⟩]))
        s.screen.layout.insert.2 := by
      apply sound.insert.perm
      rw [liveNodes_split]
      exact List.perm_append_singleton _ _
    rw [nextBlocks]
    exact (ordered.insert sound (allowed creation)).moves grown moves

end Session

/-- While no element is created over a report, the visible bars are the blocks of
the elements in the order of their creation. -/
theorem blocks_in_creation_order (clock : Nat → Instant) {ops : List SessionOp} {s : Session}
    (allowed : Guarded (fun s op => op.KeepsBlocks s) Session.step (Session.new clock) ops)
    (reached : run Session.step (Session.new clock) ops = some s) :
    s.screen.layout.visible = displayAll s.blocks :=
  (run_guarded Session.OrderedSession (fun _ _ _ => Session.step_ordered)
    (Session.new_ordered clock) allowed reached).ordered.visible

theorem blocks_in_creation_order_clearsAndFails :
    ∃ s, run Session.step (Session.new id) clearsAndFails = some s ∧
      s.screen.layout.visible = displayAll s.blocks := by
  have runs : (run Session.step (Session.new id) clearsAndFails).isSome := by decide
  have allowed : Guarded (fun s op => op.KeepsBlocks s) Session.step (Session.new id)
      clearsAndFails := by decide
  obtain ⟨s, reached⟩ := Option.isSome_iff_exists.mp runs
  exact ⟨s, reached, blocks_in_creation_order id allowed reached⟩

/-- A task with a stage fails in a bulk, and the space that follows lands between
its line and its report. -/
theorem space_above_report :
    ∃ s, run Session.step (Session.new id)
        [.newTask .modern "check" [.stage "db" "database" true] false,
          .endTask 0 (.fail (ErrorReport.new "refused")), .space] = some s ∧
      s.screen.layout.visible ≠ displayAll s.blocks := by
  refine ⟨_, rfl, ?_⟩
  decide

end KnotOps.Terminal
