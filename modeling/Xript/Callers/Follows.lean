import Xript.Callers.LaneRuns

namespace Xript.Attribution

variable {M : Type} {s next : Attribution M} {trace : List (Attribution M × CallerEvent M)}

theorem step_nextLane {event : CallerEvent M} (taken : s.step event = some next) :
    s.context.nextLane ≤ next.context.nextLane := by
  cases event with
  | enter modId | push modId =>
    obtain rfl := Option.some.inj taken
    exact Nat.le_refl _
  | dropGuard guard =>
    obtain ⟨-, rfl⟩ := step_dropGuard taken
    show _ ≤ (s.context.dropGuard guard).nextLane
    unfold CallerState.dropGuard
    split <;> simp
  | pop =>
    obtain ⟨_, -, -, rfl⟩ := step_pop taken
    show _ ≤ s.context.pop.nextLane
    unfold CallerState.pop
    split <;> simp
  | fork =>
    obtain rfl := Option.some.inj taken
    exact Nat.le_succ _
  | close closed =>
    obtain ⟨-, rfl⟩ := step_close taken
    show _ ≤ (s.context.dropLane closed).nextLane
    unfold CallerState.dropLane
    simp only
    split
    · split <;> exact Nat.le_refl _
    · exact Nat.le_refl _
  | activate other =>
    obtain ⟨-, rfl⟩ := step_activate taken
    exact Nat.le_refl _
  | deactivate =>
    obtain ⟨_, _, -, rfl⟩ := step_deactivate taken
    show _ ≤ (CallerState.tidy _ _).nextLane
    simp

/-- A lane handed out before and no longer held is not held again. -/
theorem step_lanes {event : CallerEvent M} (taken : s.step event = some next) {lane : Nat}
    (known : lane < s.context.nextLane) (held : lane ∈ next.lanes.map CallerLane.id) :
    lane ∈ s.lanes.map CallerLane.id := by
  cases event with
  | enter modId | push modId =>
    obtain rfl := Option.some.inj taken
    exact held
  | dropGuard guard =>
    obtain ⟨-, rfl⟩ := step_dropGuard taken
    exact held
  | pop =>
    obtain ⟨_, -, -, rfl⟩ := step_pop taken
    exact held
  | fork =>
    obtain rfl := Option.some.inj taken
    rcases List.mem_cons.mp held with newest | old
    · exact absurd newest (Nat.ne_of_lt known)
    · exact old
  | close closed =>
    obtain ⟨-, rfl⟩ := step_close taken
    exact List.map_subset _ (List.erase_subset ..) held
  | activate other =>
    obtain ⟨-, rfl⟩ := step_activate taken
    exact held
  | deactivate =>
    obtain ⟨_, _, -, rfl⟩ := step_deactivate taken
    exact held

theorem step_opened {event : CallerEvent M} (taken : s.step event = some next) : s.opened ⊆ next.opened := by
  cases event with
  | enter modId | push modId | fork =>
    obtain rfl := Option.some.inj taken
    exact List.subset_append_left ..
  | dropGuard guard =>
    obtain ⟨-, rfl⟩ := step_dropGuard taken
    exact List.Subset.refl _
  | pop =>
    obtain ⟨_, -, -, rfl⟩ := step_pop taken
    exact List.Subset.refl _
  | close closed =>
    obtain ⟨-, rfl⟩ := step_close taken
    exact List.Subset.refl _
  | activate other =>
    obtain ⟨-, rfl⟩ := step_activate taken
    exact List.Subset.refl _
  | deactivate =>
    obtain ⟨_, _, -, rfl⟩ := step_deactivate taken
    exact List.Subset.refl _

/-- The base of a forked lane: its first frame for as long as the lane is held. -/
structure Based (s : Attribution M) (o : Opening M) : Prop where
  base : o.opener = .base
  opened : o ∈ s.opened
  first : o.lane ∈ s.lanes.map CallerLane.id → (s.openIn o.lane).head? = some o

theorem Based.step {o : Opening M} (based : s.Based o) (kept : s.Kept) {event : CallerEvent M}
    (taken : s.step event = some next) : next.Based o := by
  have known := (kept.below o based.opened).2
  refine ⟨based.base, step_opened taken based.opened, fun held => ?_⟩
  have first := based.first (step_lanes taken known held)
  rcases kept.openIn_step taken known with same | ⟨-, -, _, grown⟩ | ⟨p, among, entered, -, left⟩ | ⟨closed, rfl, here, -⟩
  · rw [same, first]
  · rw [grown, List.head?_append, first]
    rfl
  · obtain ⟨rest, frames⟩ : ∃ rest, s.openIn o.lane = o :: rest := List.head?_eq_some_iff.mp first
    have apart : o.frame ≠ p.frame := by
      intro same
      rw [← kept.opening_eq based.opened among same, based.base] at entered
      exact entered rfl
    rw [left, frames, List.filter_cons_of_pos (by simpa using apart)]
    rfl
  · obtain ⟨among, rfl⟩ := step_close taken
    rw [← here] at held
    exact absurd held (kept.lane_nodup among).2

/-- Every lane forked in a run keeps the base it was given. -/
theorem based_of_run (run : Runs step .start trace s) {before : Attribution M} (forked : (before, .fork) ∈ trace) :
    s.Based ⟨before.context.nextFrame + 1, before.context.nextLane, before.context.current, .base⟩ := by
  induction run with
  | start => cases forked
  | @next earlier last after run event taken ih =>
    have kept := kept_of_run run
    rcases List.mem_cons.mp forked with latest | old
    · obtain ⟨rfl, rfl⟩ := Prod.mk.inj latest
      obtain rfl := Option.some.inj taken
      obtain ⟨-, stays, -⟩ := kept.new_frame
      have empty : openings before.opened before.left before.context.nextLane = [] := by
        refine List.eq_nil_iff_forall_not_mem.mpr fun o member => ?_
        obtain ⟨among, lies, -⟩ := mem_openings.1 member
        have := (kept.below o among).2
        omega
      refine ⟨rfl, List.mem_append_right _ (List.mem_singleton_self _), fun _ => ?_⟩
      refine (congrArg List.head? (openings_append stays before.context.nextLane)).trans ?_
      rw [empty]
      exact congrArg List.head? (if_pos rfl)
    · exact (ih old).step kept taken

/-- The base is the first frame of its lane, and no lane borrows it. -/
theorem Based.frames {o : Opening M} (based : s.Based o) (kept : s.Kept) (held : o.lane ∈ s.lanes.map CallerLane.id) :
    ∃ rest, s.context.framesOf o.lane = ⟨o.frame, o.modId, false, 0⟩ :: rest := by
  obtain ⟨rest, frames⟩ := List.head?_eq_some_iff.mp (based.first held)
  refine ⟨rest.map (frameOf s.borrowed), ?_⟩
  have unlent : o.frame ∉ s.borrowed := by
    intro lent
    obtain ⟨p, among, same, guard⟩ := kept.borrowed_opened lent
    rw [kept.opening_eq among based.opened same, based.base] at guard
    cases guard
  have first : frameOf s.borrowed o = ⟨o.frame, o.modId, false, 0⟩ := by
    rw [frameOf, based.base, if_neg (by simpa using unlent)]
    rfl
  rw [kept.frames, frames, List.map_cons, first]

/-- A lane in which every frame above the base is hidden reads what the base was given. -/
theorem CallerState.reads_base {context : CallerState M} {lane : Nat} {base : CallerFrame M} {rest : List (CallerFrame M)}
    (frames : context.framesOf lane = base :: rest) (shown : base.lent = 0) (hidden : ∀ frame ∈ rest, frame.lent ≠ 0) :
    context.reads lane = base.modId := by
  have none' : rest.reverse.find? (fun frame => decide (frame.lent = 0)) = none := by
    refine List.find?_eq_none.mpr fun frame member => ?_
    simpa using hidden frame (List.mem_reverse.mp member)
  rw [CallerState.reads_eq, frames, CallerState.top, List.reverse_cons, List.find?_append, none', Option.none_or,
    List.find?_cons_of_pos (by simpa using shown)]
  rfl

/-- A lane stays without frames for as long as none is opened in it. -/
theorem Kept.stays_empty {from' : Attribution M} (kept : from'.Kept) {lane : Nat} (known : lane < from'.context.nextLane)
    (empty : from'.openIn lane = []) (run : Runs Attribution.step from' trace s)
    (quiet : ∀ taken ∈ trace, ¬ (taken.1.context.active = lane ∧ Opens taken.2)) :
    s.Kept ∧ lane < s.context.nextLane ∧ s.openIn lane = [] := by
  induction run with
  | start => exact ⟨kept, known, empty⟩
  | next run event taken ih =>
    obtain ⟨latest, earlier⟩ := List.forall_mem_cons.mp quiet
    obtain ⟨kept, known, empty⟩ := ih earlier
    refine ⟨kept.step taken, Nat.lt_of_lt_of_le known (step_nextLane taken), ?_⟩
    rcases kept.openIn_step taken known with same | ⟨here, opens, -⟩ | ⟨_, -, -, -, left⟩ | ⟨_, -, -, gone⟩
    · rw [same, empty]
    · exact absurd ⟨here.symm, opens⟩ latest
    · rw [left, empty]
      rfl
    · exact gone

theorem close_empties (kept : s.Kept) {lane : CallerLane} (taken : s.step (.close lane) = some next) :
    lane.id < next.context.nextLane ∧ next.openIn lane.id = [] := by
  have after := step_nextLane taken
  obtain ⟨held, rfl⟩ := step_close taken
  refine ⟨Nat.lt_of_lt_of_le (kept.lanesBelow _ (List.mem_cons_of_mem _ (List.mem_map_of_mem held))) after, ?_⟩
  exact (openings_closed kept.distinct s.left lane.id lane.id).trans (if_pos rfl)

/-- Where nothing is held and nothing pushed is open, the root lane without frames is all there is. -/
theorem Kept.emptied (kept : s.Kept) (guards : s.guards = []) (lanes : s.lanes = []) (entered : s.entered = [])
    (popped : ∀ lane, ∀ o ∈ s.openIn lane, o.opener ≠ .push) :
    s.context.active = rootLane ∧ s.context.lanes = Function.update (fun _ => none) rootLane (some []) := by
  have bottom := kept.bottom
  rw [entered] at bottom
  refine ⟨Option.some.inj bottom, funext fun lane => ?_⟩
  have nothing : s.openIn lane = [] := by
    refine List.eq_nil_iff_forall_not_mem.mpr fun o member => ?_
    obtain ⟨among, -, stays⟩ := mem_openings.1 member
    cases opener : o.opener with
    | guard =>
      obtain ⟨guard, held, -⟩ := kept.guards o among opener stays
      rw [guards] at held
      cases held
    | push => exact popped lane o member opener
    | base =>
      have held := kept.bases o among opener stays
      rw [lanes] at held
      cases held
  have frames : s.context.framesOf lane = [] := by rw [kept.frames, nothing]; rfl
  have live := kept.live lane
  rw [lanes] at live
  have root : s.context.live lane = true ↔ lane = rootLane := live.trans (or_iff_left List.not_mem_nil)
  by_cases here : lane = rootLane
  · rw [here, Function.update_self, ← here]
    have present := kept.neat.present lane (root.mpr here)
    unfold CallerState.framesOf at frames
    cases found : s.context.lanes lane with
    | none => exact absurd found present
    | some found' =>
      rw [found] at frames
      exact congrArg some frames
  · rw [Function.update_of_ne here]
    cases found : s.context.lanes lane with
    | none => rfl
    | some found' =>
      unfold CallerState.framesOf at frames
      rw [found] at frames
      have empty : s.context.lanes lane = some [] := found.trans (congrArg some frames)
      exact absurd (root.mp (kept.neat.tidied lane empty)) here

/-- Along every run of a caller context each lane reads the mod of the latest frame opened in it that is open and not
lent; a forked lane has the mod it was forked under at its base; a step changes nothing in a lane it neither runs in nor
touches; a closed lane reads no mod until a frame is opened in it; and in the end the empty root lane is left. -/
theorem attribution_follows (run : Runs step .start trace s) :
    (∀ lane, s.context.reads lane = s.attributed lane) ∧
    (∀ before, (before, .fork) ∈ trace → ∀ held ∈ s.lanes, held.id = before.context.nextLane →
      ∃ rest, s.context.framesOf held.id = ⟨before.context.nextFrame + 1, before.context.current, false, 0⟩ :: rest ∧
        ((∀ frame ∈ rest, frame.lent ≠ 0) → s.context.reads held.id = before.context.current)) ∧
    (∀ event next, s.step event = some next → ∀ lane < s.context.nextLane, lane ≠ s.context.active →
      ¬ Touches lane event → next.context.reads lane = s.context.reads lane) ∧
    (∀ later before closed earlier, trace = later ++ (before, .close closed) :: earlier →
      (∀ taken ∈ later, ¬ (taken.1.context.active = closed.id ∧ Opens taken.2)) →
      s.context.reads closed.id = none) ∧
    (s.guards = [] → s.lanes = [] → s.entered = [] → (∀ lane, ∀ o ∈ s.openIn lane, o.opener ≠ .push) →
      s.context.active = rootLane ∧ s.context.lanes = Function.update (fun _ => none) rootLane (some [])) := by
  have kept := kept_of_run run
  refine ⟨kept.reads, ?_, ?_, ?_, kept.emptied⟩
  · intro before forked held member here
    have inside : before.context.nextLane ∈ s.lanes.map CallerLane.id := here ▸ List.mem_map_of_mem member
    obtain ⟨rest, frames⟩ := (based_of_run run forked).frames kept inside
    rw [here]
    exact ⟨rest, frames, CallerState.reads_base frames rfl⟩
  · intro event next taken lane known apart untouched
    exact kept.reads_apart taken known apart untouched
  · rintro later before closed earlier rfl quiet
    obtain ⟨after, first, taken, rest⟩ := run.split
    have keptBefore := kept_of_run first
    obtain ⟨known, empty⟩ := close_empties keptBefore taken
    obtain ⟨-, -, nothing⟩ := (keptBefore.step taken).stays_empty known empty rest quiet
    rw [kept.reads, attributed, nothing]
    rfl

/-- A call forked while `alpha` runs reads `alpha`, and the lane it came from has the frame hidden. -/
theorem attribution_follows_fork :
    ∃ (trace : List (Attribution String × CallerEvent String)) (s : Attribution String),
      Runs step .start trace s ∧ s.context.active = 1 ∧ s.context.reads 1 = some "alpha" ∧ s.attributed rootLane = none ∧
        ∀ lane, s.context.reads lane = s.attributed lane := by
  have run : Runs step (start (M := String)) _ _ :=
    ((Runs.start.next (.enter (some "alpha")) rfl).next .fork rfl).next (.activate 1) rfl
  exact ⟨_, _, run, rfl, rfl, rfl, (attribution_follows run).1⟩

/-- A guard that is dropped while another lane is active leaves its frame in the lane it entered, and a frame that is
pushed and never popped stays when nothing is held. -/
theorem not_apart_and_not_emptied :
    (¬ ∀ (trace : List (Attribution String × CallerEvent String)) (s next : Attribution String)
      (event : CallerEvent String), Runs step .start trace s → s.step event = some next →
      (∀ closed, event ≠ .close closed) → ∀ lane < s.context.nextLane, lane ≠ s.context.active →
      next.context.reads lane = s.context.reads lane) ∧
    ¬ ∀ (trace : List (Attribution String × CallerEvent String)) (s : Attribution String),
      Runs step .start trace s → s.guards = [] → s.lanes = [] → s.entered = [] →
      s.context.framesOf rootLane = [] := by
  constructor
  · intro apart
    have run : Runs step (start (M := String)) _ _ :=
      ((Runs.start.next .fork rfl).next (.enter (some "alpha")) rfl).next (.activate 1) rfl
    cases apart _ _ _ (.dropGuard ⟨rootLane, 2⟩) run rfl nofun rootLane (by decide) (by decide)
  · intro emptied
    have run : Runs step (start (M := String)) _ _ := Runs.start.next (.push (some "alpha")) rfl
    cases emptied _ _ run rfl rfl rfl

end Xript.Attribution
