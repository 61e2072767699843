import KnotOps.Terminal.SessionMoves
import KnotOps.Machine

/-! The anchor is always live.
`Sound` holds of the live bars of all elements together and the layout: the
moves of one block keep it whatever the other blocks are, and so does the
insertion of a new head. -/

namespace KnotOps.Terminal

open Machine

/-- The second call inserts after a bar that the first one has cleared. -/
def MultiCall.Misplaced (c d : MultiCall) : Prop :=
  ∃ n x, c = .finishAndClear n ∧ d = .insertAfter n x

structure Sound (live : List LayoutNode) (l : TaskLayout) : Prop where
  nodup : live.Nodup
  known : ∀ n ∈ live, n ∈ l.multi.inserted
  shown : ∀ n ∈ live, n ∉ l.multi.cleared
  fresh : ∀ n ∈ l.multi.inserted, n.id < l.nodeCounter
  cleared : ∀ n ∈ l.multi.cleared, n ∈ l.multi.inserted
  unique : l.multi.inserted.Nodup
  anchor : ∀ a, l.anchor = some a → a ∈ live
  absent : l.anchor = none → l.multi.inserted = []
  targets : l.multi.calls.Pairwise fun c d => ¬ c.Misplaced d

namespace MultiProgress

theorem mem_cleared {m : MultiProgress} {n : LayoutNode} :
    n ∈ m.cleared ↔ .finishAndClear n ∈ m.calls := by
  unfold cleared
  rw [List.mem_filterMap]
  constructor
  · rintro ⟨c, member, clears⟩
    cases c with
    | finishAndClear bar => exact Option.some.inj clears ▸ member
    | add | insertAfter | enableSteadyTick | finish => cases clears
  · intro member
    exact ⟨_, member, rfl⟩

end MultiProgress

namespace Sound

variable {live : List LayoutNode} {l l' : TaskLayout}

theorem new : Sound [] (TaskLayout.new none) := by
  refine ⟨List.nodup_nil, ?_, ?_, ?_, ?_, List.nodup_nil, ?_, fun _ => rfl, List.Pairwise.nil⟩ <;>
    simp [TaskLayout.new, MultiProgress.inserted, MultiProgress.cleared]

theorem perm (h : Sound live l) {live' : List LayoutNode} (same : live'.Perm live) :
    Sound live' l :=
  { h with
    nodup := same.nodup_iff.mpr h.nodup
    known := fun n member => h.known n (same.subset member)
    shown := fun n member => h.shown n (same.subset member)
    anchor := fun a is_anchor => same.mem_iff.mpr (h.anchor a is_anchor) }

theorem quietly (h : Sound live l) (quiet : l.Quietly l') : Sound live l' := by
  obtain ⟨calls, quiet, rfl⟩ := quiet
  have inserted : (l.calling calls).multi.inserted = l.multi.inserted := by
    have none_inserted : calls.filterMap MultiCall.inserted = [] :=
      List.filterMap_eq_nil_iff.mpr fun c member => (quiet c member).1
    simp [MultiProgress.inserted, TaskLayout.calling, none_inserted]
  have cleared : (l.calling calls).multi.cleared = l.multi.cleared := by
    have none_cleared : calls.filterMap MultiCall.cleared = [] :=
      List.filterMap_eq_nil_iff.mpr fun c member => (quiet c member).2
    simp [MultiProgress.cleared, TaskLayout.calling, none_cleared]
  have harmless : ∀ c : MultiCall, ∀ d ∈ calls, ¬ c.Misplaced d := by
    rintro c d member ⟨n, x, -, rfl⟩
    have noTarget := (quiet _ member).1
    simp [MultiCall.inserted] at noTarget
  refine ⟨h.nodup, ?_, ?_, ?_, ?_, ?_, h.anchor, ?_, ?_⟩
  · rw [inserted]; exact h.known
  · rw [cleared]; exact h.shown
  · rw [inserted]; exact h.fresh
  · rw [inserted, cleared]; exact h.cleared
  · rw [inserted]; exact h.unique
  · rw [inserted]; exact h.absent
  · apply List.pairwise_append.mpr
    refine ⟨h.targets, ?_, fun c _ d member => harmless c d member⟩
    exact List.pairwise_of_forall_mem_list fun c _ d member => harmless c d member

theorem next_notMem (h : Sound live l) : (⟨l.nodeCounter⟩ : LayoutNode) ∉ l.multi.inserted :=
  fun member => Nat.lt_irrefl _ (h.fresh _ member)

theorem grow (h : Sound live l) {anchor : LayoutNode} {ordering : List LayoutNode}
    {call : MultiCall} (inserts : call.inserted = some ⟨l.nodeCounter⟩)
    (clears : call.cleared = none) (placed : ∀ c ∈ l.multi.calls, ¬ c.Misplaced call)
    (is_live : anchor ∈ (⟨l.nodeCounter⟩ :: live : List LayoutNode)) :
    Sound (⟨l.nodeCounter⟩ :: live)
      ⟨⟨ordering, l.multi.calls ++ [call]⟩, some anchor, l.nodeCounter + 1⟩ := by
  have next := h.next_notMem
  have inserted : MultiProgress.inserted ⟨ordering, l.multi.calls ++ [call]⟩ =
      l.multi.inserted ++ [⟨l.nodeCounter⟩] := by
    simp [MultiProgress.inserted, inserts]
  have cleared : MultiProgress.cleared ⟨ordering, l.multi.calls ++ [call]⟩ = l.multi.cleared := by
    simp [MultiProgress.cleared, clears]
  refine ⟨?_, ?_, ?_, ?_, ?_, ?_, ?_, ?_, ?_⟩
  · exact List.nodup_cons.mpr ⟨fun member => next (h.known _ member), h.nodup⟩
  · rw [inserted]
    intro n member
    rcases List.mem_cons.mp member with rfl | old
    · simp
    · exact List.mem_append_left _ (h.known n old)
  · rw [cleared]
    intro n member
    rcases List.mem_cons.mp member with rfl | old
    · exact fun gone => next (h.cleared _ gone)
    · exact h.shown n old
  · rw [inserted]
    intro n member
    rcases List.mem_append.mp member with old | new
    · exact Nat.lt_succ_of_lt (h.fresh n old)
    · rw [List.mem_singleton.mp new]
      exact Nat.lt_succ_self _
  · rw [inserted, cleared]
    intro n gone
    exact List.mem_append_left _ (h.cleared n gone)
  · rw [inserted]
    apply List.nodup_append'.mpr
    exact ⟨h.unique, List.nodup_singleton _, by simpa using next⟩
  · intro a is_anchor
    exact Option.some.inj is_anchor ▸ is_live
  · simp
  · apply List.pairwise_append.mpr
    refine ⟨h.targets, List.pairwise_singleton _ _, ?_⟩
    intro c member d last
    rw [List.mem_singleton.mp last]
    exact placed c member

theorem anchor_some (h : Sound live l) {n : LayoutNode} (present : n ∈ live) :
    ∃ a, l.anchor = some a := by
  by_contra none_anchor
  have absent := h.absent (Option.eq_none_iff_forall_ne_some.mpr fun a is_anchor =>
    none_anchor ⟨a, is_anchor⟩)
  have listed := h.known n present
  rw [absent] at listed
  cases listed

theorem not_misplaced (h : Sound live l) {target : LayoutNode} (present : target ∈ live)
    (bar : LayoutNode) : ∀ c ∈ l.multi.calls, ¬ c.Misplaced (.insertAfter target bar) := by
  rintro c member ⟨n, x, rfl, same⟩
  obtain ⟨rfl, -⟩ := MultiCall.insertAfter.inj same
  exact h.shown _ present (MultiProgress.mem_cleared.mpr member)

theorem insertAfter (h : Sound live l) {target : LayoutNode} (present : target ∈ live) :
    Sound ((l.insertAfter target).1 :: live) (l.insertAfter target).2 := by
  obtain ⟨a, is_anchor⟩ := h.anchor_some present
  have placed := h.not_misplaced present ⟨l.nodeCounter⟩
  simp only [TaskLayout.insertAfter, TaskLayout.nextId, is_anchor]
  by_cases same : some a = some target
  · rw [if_pos same]
    exact h.grow rfl rfl placed List.mem_cons_self
  · rw [if_neg same]
    exact h.grow rfl rfl placed (List.mem_cons_of_mem _ (h.anchor a is_anchor))

theorem insert (h : Sound live l) : Sound (l.insert.1 :: live) l.insert.2 := by
  cases is_anchor : l.anchor with
  | none =>
    simp only [TaskLayout.insert, TaskLayout.nextId, is_anchor]
    refine h.grow rfl rfl ?_ List.mem_cons_self
    rintro c _ ⟨n, x, -, same⟩
    cases same
  | some a =>
    simp only [TaskLayout.insert, TaskLayout.nextId, is_anchor]
    exact h.grow rfl rfl (h.not_misplaced (h.anchor a is_anchor) _) List.mem_cons_self

theorem inserted_clearing (l : TaskLayout) (gone : List LayoutNode) :
    (l.clearing gone).multi.inserted = l.multi.inserted := by
  have none_inserted : (gone.map MultiCall.finishAndClear).filterMap MultiCall.inserted = [] := by
    simp [List.filterMap_map, Function.comp_def, MultiCall.inserted]
  simp [TaskLayout.clearing, TaskLayout.calling, MultiProgress.inserted, none_inserted]

theorem cleared_clearing (l : TaskLayout) (gone : List LayoutNode) :
    (l.clearing gone).multi.cleared = l.multi.cleared ++ gone := by
  simp [TaskLayout.clearing, TaskLayout.calling, MultiProgress.cleared, List.filterMap_map,
    Function.comp_def, MultiCall.cleared]

theorem clear (h : Sound live l) {kept gone : List LayoutNode} (split : live.Perm (kept ++ gone))
    {fallback : LayoutNode} (stays : fallback ∈ kept) :
    Sound kept ((l.clearing gone).updateAnchorIfIn gone fallback) := by
  have nodup := List.nodup_append'.mp (split.nodup_iff.mp h.nodup)
  have isLive : ∀ n ∈ kept, n ∈ live := fun n member =>
    split.mem_iff.mpr (List.mem_append_left _ member)
  have wasLive : ∀ n ∈ gone, n ∈ live := fun n member =>
    split.mem_iff.mpr (List.mem_append_right _ member)
  obtain ⟨a, is_anchor⟩ := h.anchor_some (isLive fallback stays)
  have updated : (l.clearing gone).updateAnchorIfIn gone fallback =
      ⟨(l.clearing gone).multi, some (if a ∈ gone then fallback else a), l.nodeCounter⟩ := by
    simp only [TaskLayout.updateAnchorIfIn, TaskLayout.clearing, TaskLayout.calling, is_anchor]
    by_cases cleared : a ∈ gone <;> simp [cleared, TaskLayout.setAnchor]
  rw [updated]
  refine ⟨nodup.1, ?_, ?_, ?_, ?_, ?_, ?_, by simp, ?_⟩
  · rw [inserted_clearing]
    exact fun n member => h.known n (isLive n member)
  · rw [cleared_clearing]
    intro n member cleared
    rcases List.mem_append.mp cleared with old | new
    · exact h.shown n (isLive n member) old
    · exact nodup.2.2 member new
  · rw [inserted_clearing]
    exact h.fresh
  · rw [inserted_clearing, cleared_clearing]
    intro n cleared
    rcases List.mem_append.mp cleared with old | new
    · exact h.cleared n old
    · exact h.known n (wasLive n new)
  · rw [inserted_clearing]
    exact h.unique
  · intro x is_x
    rw [← Option.some.inj is_x]
    by_cases cleared : a ∈ gone
    · rw [if_pos cleared]
      exact stays
    · rw [if_neg cleared]
      exact (List.mem_append.mp (split.mem_iff.mp (h.anchor a is_anchor))).resolve_right cleared
  · apply List.pairwise_append.mpr
    refine ⟨h.targets, ?_, ?_⟩
    · apply List.pairwise_of_forall_mem_list
      rintro c _ d member ⟨n, x, -, rfl⟩
      simp at member
    · rintro c _ d member ⟨n, x, -, rfl⟩
      simp at member

end Sound

def liveNodes (blocks : List Block) : List LayoutNode :=
  blocks.flatMap Block.nodes

theorem liveNodes_split (before after : List Block) (b : Block) :
    liveNodes (before ++ b :: after) = liveNodes before ++ (b.nodes ++ liveNodes after) := by
  simp [liveNodes]

theorem liveNodes_grow {before after : List Block} {b b' : Block} {bar : LayoutNode}
    (front back : List LayoutNode) (nodes : b.nodes = front ++ back)
    (grown : b'.nodes = front ++ bar :: back) :
    (liveNodes (before ++ b' :: after)).Perm (bar :: liveNodes (before ++ b :: after)) := by
  rw [liveNodes_split, liveNodes_split, nodes, grown]
  have inBlock : (front ++ bar :: back ++ liveNodes after).Perm
      (bar :: (front ++ back ++ liveNodes after)) := List.perm_middle.append_right _
  exact (inBlock.append_left _).trans List.perm_middle

theorem liveNodes_clear (before after : List Block) (b : Block) :
    (liveNodes (before ++ b :: after)).Perm
      (liveNodes (before ++ ⟨b.head, []⟩ :: after) ++ b.entryNodes) := by
  have left : Block.nodes ⟨b.head, []⟩ = b.head.nodes := by simp [Block.nodes, Block.entryNodes]
  rw [liveNodes_split, liveNodes_split, left, Block.nodes, List.append_assoc, List.append_assoc,
    List.append_assoc]
  exact (List.perm_append_comm.append_left _).append_left _

namespace Sound

variable {before after : List Block} {b b' : Block} {l l' : TaskLayout}

theorem move (h : Sound (liveNodes (before ++ b :: after)) l) (moved : Move (b, l) (b', l')) :
    Sound (liveNodes (before ++ b' :: after)) l' := by
  have present : ∀ n ∈ b.nodes, n ∈ liveNodes (before ++ b :: after) := fun n member => by
    rw [liveNodes_split]
    exact List.mem_append_right _ (List.mem_append_left _ member)
  cases moved with
  | quiet quiet => exact h.quietly quiet
  | @headReport _ _ node head =>
    have target : node ∈ b.nodes := by simp [Block.nodes, head, TaskRenderingStrategy.nodes]
    apply (h.insertAfter (present node target)).perm
    apply liveNodes_grow [node] b.entryNodes
    · simp [Block.nodes, head, TaskRenderingStrategy.nodes]
    · simp [Block.nodes, Block.entryNodes, TaskRenderingStrategy.nodes]
  | @entryReport _ _ node inserted first rest entries =>
    have target : node ∈ b.nodes := by
      simp [Block.nodes, Block.entryNodes, entries, TaskRenderingStrategy.nodes]
    apply (h.insertAfter (present node target)).perm
    apply liveNodes_grow
      (b.head.nodes ++ (first.flatMap TaskRenderingStrategy.nodes ++ node :: inserted))
      (rest.flatMap TaskRenderingStrategy.nodes)
    · simp [Block.nodes, Block.entryNodes, entries, TaskRenderingStrategy.nodes]
    · simp [Block.nodes, Block.entryNodes, TaskRenderingStrategy.nodes]
  | @append _ _ head node empty last =>
    have target : node ∈ b.nodes := Block.mem_display.mp (List.mem_of_getLast? last)
    apply (h.insertAfter (present node target)).perm
    apply liveNodes_grow b.nodes []
    · simp
    · simp [Block.nodes, Block.entryNodes, TaskRenderingStrategy.nodes]
  | @clear _ _ node inserted head =>
    apply h.clear (liveNodes_clear before after b)
    rw [liveNodes_split]
    apply List.mem_append_right
    apply List.mem_append_left
    simp [Block.nodes, head, TaskRenderingStrategy.nodes]

theorem moves (h : Sound (liveNodes (before ++ b :: after)) l) (moved : Moves (b, l) (b', l')) :
    Sound (liveNodes (before ++ b' :: after)) l' := by
  generalize start : (b, l) = s at moved
  generalize last : (b', l') = t at moved
  induction moved generalizing b' l' with
  | refl =>
    obtain ⟨rfl, rfl⟩ := Prod.mk.inj (start.trans last.symm)
    exact h
  | @tail mid _ _ step ih =>
    obtain ⟨b₁, l₁⟩ := mid
    subst last
    exact (ih rfl).move step

end Sound

/-- What holds of the layout between two calls. -/
structure TaskLayout.AnchorLive (l : TaskLayout) : Prop where
  absent : l.anchor = none → l.multi.inserted = []
  live : ∀ a, l.anchor = some a → a ∈ l.multi.inserted ∧ a ∉ l.multi.cleared
  unique : (l.multi.inserted.map (·.id)).Nodup
  targets : l.multi.calls.Pairwise fun c d => ¬ c.Misplaced d

theorem Sound.anchorLive {live : List LayoutNode} {l : TaskLayout} (h : Sound live l) :
    l.AnchorLive where
  absent := h.absent
  live a is_anchor := ⟨h.known a (h.anchor a is_anchor), h.shown a (h.anchor a is_anchor)⟩
  unique := h.unique.map fun a b same => by
    cases a
    cases b
    exact congrArg LayoutNode.mk same
  targets := h.targets

namespace Session

structure SoundSession (s : Session) : Prop where
  tidy : s.Tidy
  sound : Sound (liveNodes s.blocks) s.screen.layout

theorem new_sound (clock : Nat → Instant) : (new clock).SoundSession :=
  ⟨by simp [Tidy, new], Sound.new⟩

theorem step_sound {s next : Session} {op : SessionOp} (h : s.SoundSession)
    (taken : s.step op = some next) : next.SoundSession := by
  cases creation : op.creates with
  | false =>
    obtain ⟨tidy, before, b, b', after, blocks, nextBlocks, moves⟩ :=
      step_calls h.tidy creation taken
    have sound := h.sound
    rw [blocks] at sound
    refine ⟨tidy, ?_⟩
    rw [nextBlocks]
    exact sound.moves moves
  | true =>
    obtain ⟨tidy, b, nextBlocks, moves⟩ := step_creates h.tidy creation taken
    refine ⟨tidy, ?_⟩
    rw [nextBlocks]
    refine Sound.moves (b := ⟨.interactive s.screen.layout.insert.1 [], []⟩) ?_ moves
    apply h.sound.insert.perm
    rw [liveNodes_split]
    exact List.perm_append_singleton _ _

end Session

/-- In every reachable state the anchor is live, ids are unique, and no bar was
inserted after a cleared one. -/
theorem anchor_is_live (clock : Nat → Instant) {ops : List SessionOp} {s : Session}
    (reached : run Session.step (Session.new clock) ops = some s) : s.screen.layout.AnchorLive :=
  (run_invariant Session.SoundSession (fun _ _ _ => Session.step_sound)
    (Session.new_sound clock) reached).sound.anchorLive

def clearsAndFails : List SessionOp :=
  [.newSequence .modern "deploy" [.stage "pull"] true false, .sequence 0 (.ok "pulled"), .space,
    .newTask .modern "check" [.stage "db" "database" true] false, .newStep .modern "last" true,
    .endTask 2 (.fail (ErrorReport.new "refused"))]

theorem anchor_is_live_clearsAndFails :
    ∃ s, run Session.step (Session.new id) clearsAndFails = some s ∧
      s.screen.layout.AnchorLive := by
  have runs : (run Session.step (Session.new id) clearsAndFails).isSome := by decide
  obtain ⟨s, reached⟩ := Option.isSome_iff_exists.mp runs
  exact ⟨s, reached, anchor_is_live id reached⟩

end KnotOps.Terminal
