import Waveform.Proofs.Coverage.Sweep

/-!
# Searches that nobody cancels

A search for common windows that is not to be cancelled, among segments of one interval, comes to an
end: it finds what sweeping over one channel after the other finds.
-/

namespace Waveform

namespace Search

/-- Whether a search that nobody cancels comes to a value. -/
def Finds {α : Type} (search : Search α) (value : α) : Prop :=
  ∀ state : SearchState, state.patience = none →
    ∃ later : SearchState, search.run.run state = (.ok value, later) ∧ later.patience = none

variable {α β : Type} {value : α} {expected : Int} {segments windows : List Span}

theorem finds_pure (value : α) : Finds (pure value) value :=
  fun state calm => ⟨state, rfl, calm⟩

theorem Finds.bind {search : Search α} {next : α → Search β} {result : β}
    (finds : search.Finds value) (later : (next value).Finds result) :
    Finds (search >>= next) result := by
  intro state calm
  obtain ⟨between, isFound, stillCalm⟩ := finds state calm
  obtain ⟨final, isResult, finallyCalm⟩ := later between stillCalm
  refine ⟨final, ?_, finallyCalm⟩
  rw [ExceptT.run_bind, StateT.run_bind, isFound]
  exact isResult

theorem finds_publish (snapshot : SearchProgress) : Finds (publish snapshot) () :=
  fun _ calm => ⟨_, rfl, calm⟩

theorem finds_publishCount : Finds publishCount () :=
  fun _ calm => ⟨_, rfl, calm⟩

theorem finds_finish (count : Nat) : Finds (finish count) () :=
  fun _ calm => ⟨_, rfl, calm⟩

theorem finds_haltIfCancelled : Finds haltIfCancelled () := by
  intro state calm
  refine ⟨state, ?_, calm⟩
  obtain ⟨total, processed, published, patience⟩ := state
  subst calm
  rfl

theorem finds_requireInterval {segment : Span} (same : segment.interval = expected) :
    Finds (requireInterval expected segment) () := by
  intro state calm
  refine ⟨state, ?_, calm⟩
  rw [requireInterval, if_neg (not_not.mpr same)]
  rfl

/-- A look at a segment of the expected interval does not end a search. -/
theorem Finds.afterLook {segment : Span} {next : Search α} (finds : next.Finds value)
    (same : segment.interval = expected) :
    Finds (do haltIfCancelled; requireInterval expected segment; next) value :=
  finds_haltIfCancelled.bind ((finds_requireInterval same).bind finds)

/-- Being done with segments does not end a search. -/
theorem Finds.afterFinish {next : Search α} (finds : next.Finds value) (count : Nat) :
    Finds (do finish count; publishCount; next) value :=
  (finds_finish count).bind (finds_publishCount.bind finds)

theorem finds_requireIntervals (same : ∀ segment ∈ segments, segment.interval = expected) :
    Finds (segments.forM (requireInterval expected)) () := by
  induction segments with
  | nil => exact finds_pure ()
  | cons segment later ih =>
      obtain ⟨first, others⟩ := List.forall_mem_cons.mp same
      exact (finds_requireInterval first).bind (ih others)

/-- The segments of the first channel are the windows to begin with. -/
theorem finds_seed (same : ∀ segment ∈ segments, segment.interval = expected) :
    Finds (seed expected segments) segments := by
  induction segments with
  | nil => exact finds_publishCount.bind (finds_pure [])
  | cons segment later ih =>
      obtain ⟨first, others⟩ := List.forall_mem_cons.mp same
      rw [seed]
      apply Finds.afterLook _ first
      apply (finds_finish 1).bind
      exact (ih others).bind (finds_pure _)

/-- Segments that no window reaches add none. -/
theorem finds_skip (same : ∀ segment ∈ segments, segment.interval = expected) :
    Finds (skip expected segments) [] :=
  (finds_requireIntervals same).bind ((finds_pure []).afterFinish segments.length)

/-- Narrowing finds what the sweep over the windows and the segments finds. -/
theorem finds_narrow (same : ∀ segment ∈ segments, segment.interval = expected) :
    Finds (narrow expected windows segments) (Span.sweep windows segments) := by
  fun_induction Span.sweep windows segments with
  | case1 segments =>
      rw [narrow]
      exact finds_skip same
  | case2 window windows =>
      rw [narrow]
      exact finds_skip same
  | case3 window windows segment segments before ih =>
      obtain ⟨first, later⟩ := List.forall_mem_cons.mp same
      rw [narrow, if_pos before]
      exact ((ih later).afterFinish 1).afterLook first
  | case4 window windows segment segments late before ih =>
      rw [narrow, if_neg late, if_pos before]
      exact (ih same).afterLook (same segment List.mem_cons_self)
  | case5 window windows segment segments late early shorter ih =>
      obtain ⟨first, later⟩ := List.forall_mem_cons.mp same
      rw [narrow, if_neg late, if_neg early, if_pos shorter]
      apply Finds.afterLook _ first
      apply Finds.afterFinish
      exact (ih later).bind (finds_pure (window.meet segment :: _))
  | case6 window windows segment segments late early notShorter longer ih =>
      rw [narrow, if_neg late, if_neg early, if_neg notShorter, if_pos longer]
      apply Finds.afterLook _ (same segment List.mem_cons_self)
      exact (ih same).bind (finds_pure (window.meet segment :: _))
  | case7 window windows segment segments late early notShorter notLonger ih =>
      obtain ⟨first, later⟩ := List.forall_mem_cons.mp same
      rw [narrow, if_neg late, if_neg early, if_neg notShorter, if_neg notLonger]
      apply Finds.afterLook _ first
      apply Finds.afterFinish
      exact (ih later).bind (finds_pure (window.meet segment :: _))

/-- Narrowing by one channel after the other finds what one sweep after the other finds. -/
theorem finds_foldlM {channels : List (List Span)}
    (same : ∀ channel ∈ channels, ∀ segment ∈ channel, segment.interval = expected) :
    Finds (channels.foldlM (narrow expected) windows) (channels.foldl Span.sweep windows) := by
  induction channels generalizing windows with
  | nil => exact finds_pure windows
  | cons channel later ih =>
      obtain ⟨first, others⟩ := List.forall_mem_cons.mp same
      rw [List.foldlM_cons]
      exact (finds_narrow first).bind (ih others)

end Search

namespace Span

/-- No windows are narrowed to none. -/
theorem foldl_sweep_nil (channels : List (List Span)) : channels.foldl sweep [] = [] := by
  induction channels with
  | nil => rfl
  | cons channel later ih =>
      rw [List.foldl_cons, sweep]
      exact ih

end Span

/-- A search that nobody cancels, among segments of one interval, sweeps over one channel after the
other. -/
theorem windows_commonWindows {first : List Span} {channels : List (List Span)} {expected : Int}
    (same : ∀ channel ∈ first :: channels, ∀ segment ∈ channel, segment.interval = expected) :
    (commonWindows (first :: channels) .never).windows = .ok (channels.foldl Span.sweep first) := by
  obtain ⟨firstSame, channelsSame⟩ := List.forall_mem_cons.mp same
  have finds : (Search.windows (first :: channels)).Finds (channels.foldl Span.sweep first) := by
    cases first with
    | nil =>
        rw [Span.foldl_sweep_nil]
        exact (Search.finds_publish .complete).bind (Search.finds_pure [])
    | cons segment segments =>
        obtain rfl : segment.interval = expected := firstSame segment List.mem_cons_self
        rw [Search.windows]
        apply (Search.finds_seed firstSame).bind
        apply (Search.finds_foldlM channelsSame).bind
        exact (Search.finds_publish .complete).bind (Search.finds_pure _)
  obtain ⟨final, isFound, _⟩ := finds ⟨totalOf List.length (first :: channels), 0, [], none⟩ rfl
  have isOutcome : (commonWindows (first :: channels) .never).windows =
      ((Search.windows (first :: channels)).run.run
        ⟨totalOf List.length (first :: channels), 0, [], none⟩).1 := rfl
  rw [isOutcome, isFound]

end Waveform
