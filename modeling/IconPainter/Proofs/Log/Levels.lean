import IconPainter.Log.Filter

/-! # Levels

A filter up to a level keeps what is up to that level, in the same order. It
shows the spans as well, unless the level is below theirs.
-/

namespace IconPainter

def Event.bare (e : Event) : Event := { e with spans := [] }

namespace Filter

variable {l : Level}

theorem upTo_eq (l : Level) : upTo l = ⟨[.upTo (some l)], [], some l⟩ := by
  cases l <;> decide

theorem keepsStatically_upTo (l : Level) (e : Event) :
    (upTo l).keepsStatically e = decide (e.level ≤ l) := by
  rw [upTo_eq]
  rfl

theorem shownFrom_upTo (h : Level.info ≤ l) (spans : List Span) :
    (upTo l).shownFrom [] spans = (spans, []) := by
  induction spans with
  | nil => rfl
  | cons s spans ih =>
    have hnone : (upTo l).directivesFor s = [] := by rw [upTo_eq]; rfl
    have hshows : (upTo l).showsStatically s = decide (Level.info ≤ l) := by rw [upTo_eq]; rfl
    simp only [shownFrom, hnone, hshows, ih, h, decide_true, Bool.true_or, if_true]

theorem keep?_upTo (l : Level) (e : Event) : (upTo l).keep? e =
    if e.level ≤ l then some (if Level.info ≤ l then e else e.bare) else none := by
  have hlimit : (upTo l).limit = some l := by rw [upTo_eq]
  by_cases hinfo : Level.info ≤ l
  · simp [keep?, shown, hlimit, keeps, hinfo, shownFrom_upTo, keepsStatically_upTo]
  · simp [keep?, shown, hlimit, keeps, hinfo, keepsStatically_upTo, Event.bare]

theorem map_bare_apply_upTo (l : Level) (events : List Event) :
    ((upTo l).apply events).map Event.bare = (events.map Event.bare).filter (·.level ≤ l) := by
  induction events with
  | nil => rfl
  | cons e events ih =>
    unfold apply at ih ⊢
    rw [List.filterMap_cons, keep?_upTo, List.map_cons, List.filter_cons]
    by_cases hlevel : e.level ≤ l
    · by_cases hinfo : Level.info ≤ l <;> simp [hlevel, hinfo, ih, Event.bare]
    · simp [hlevel, ih, Event.bare]

end Filter

theorem Level.le_trace (l : Level) : l ≤ trace := by
  cases l <;> decide

end IconPainter
