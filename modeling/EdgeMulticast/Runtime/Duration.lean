import EdgeMulticast.Lib.Text

/-!
# Durations of the configuration document

`duration.rs` and `one_stated` of `config.rs` (`dz-publisher-runtime`): how a duration is read, in
nanoseconds, and how the one duration the feeds of a publisher state is settled.
-/

namespace EdgeMulticast.Runtime

open EdgeMulticast.Lib

/-- The nanoseconds of a unit. -/
def unitNs (unit : List Byte) : Option ℕ :=
  if unit = ascii "ns" then some 1
  else if unit = ascii "us" then some 1000
  else if unit = ascii "ms" then some 1000000
  else if unit = ascii "s" then some 1000000000
  else if unit = ascii "m" then some (60 * 1000000000)
  else if unit = ascii "h" then some (3600 * 1000000000)
  else none

/-- A name between backquotes. -/
def quoted (text : List Byte) : List Byte := 96 :: text ++ [96]

/-- Parse a whole number and its unit. -/
def parseDuration (raw : List Byte) : Except (List Byte) ℕ :=
  match raw.findIdx? (!isDigit ·) with
  | none => .error (quoted raw ++ ascii " has no unit (ns, us, ms, s, m, h)")
  | some 0 => .error (quoted raw ++ ascii " does not start with a number")
  | some digits =>
      let value := raw.take digits
      let unit := raw.drop digits
      match parseUnsigned (2 ^ 64 - 1) value with
      | none => .error (quoted value ++ ascii " is not a whole number")
      | some count =>
          match unitNs unit with
          | none =>
              .error (quoted unit ++ ascii " is not a duration unit (ns, us, ms, s, m, h)")
          | some nanos =>
              if count * nanos < 2 ^ 64 then .ok (count * nanos)
              else .error (quoted raw ++ ascii " does not fit in a 64-bit nanosecond count")

/-- A duration that was read fits the clock. -/
theorem lt_of_parseDuration {raw : List Byte} {ns : ℕ} (h : parseDuration raw = .ok ns) :
    ns < 2 ^ 64 := by
  rw [parseDuration] at h
  split at h
  · cases h
  · cases h
  · dsimp only at h
    split at h
    · cases h
    · split at h
      · cases h
      · split at h
        next hlt => exact Except.ok.inj h ▸ hlt
        next => cases h

/-- What refuses to start a publisher over a duration its feeds state. -/
inductive DurationRefused
  | zeroDuration (key : List Byte)
  | feedsDisagree (key : List Byte) (one another : ℕ)
deriving DecidableEq

/-- The one value of those stated, after `settled`. -/
def settle (key : List Byte) (settled : Option ℕ) : List ℕ → Except DurationRefused (Option ℕ)
  | [] => .ok settled
  | value :: stated =>
      if value = 0 then .error (.zeroDuration key)
      else
        match settled with
        | none => settle key (some value) stated
        | some one =>
            if one ≠ value then .error (.feedsDisagree key one value)
            else settle key (some one) stated

/-- The one value the enabled feeds state for a key, or its default. -/
def oneStated (key : List Byte) (stated : List (Option ℕ)) (default : ℕ) :
    Except DurationRefused ℕ :=
  (settle key none (stated.filterMap id)).map (·.getD default)

theorem settle_mem {key : List Byte} {settled : Option ℕ} {stated : List ℕ} {ns : ℕ}
    (h : settle key settled stated = .ok (some ns)) : settled = some ns ∨ ns ∈ stated ∧ 0 < ns := by
  induction stated generalizing settled with
  | nil => exact .inl (Except.ok.inj h)
  | cons value stated ih =>
      rw [settle.eq_def] at h
      dsimp only at h
      split at h
      · cases h
      next hne =>
          split at h
          next =>
              rcases ih h with heq | ⟨hmem, hpos⟩
              · obtain rfl := Option.some.inj heq
                exact .inr ⟨List.mem_cons_self, Nat.pos_of_ne_zero hne⟩
              · exact .inr ⟨List.mem_cons_of_mem _ hmem, hpos⟩
          next =>
              split at h
              · cases h
              · exact (ih h).imp_right fun ⟨hmem, hpos⟩ ↦ ⟨List.mem_cons_of_mem _ hmem, hpos⟩

/-- `[[feed]] idle_guard` of the blocks that state it, a minute where none does. -/
def idleGuardOf (stated : List (Option ℕ)) : Except DurationRefused ℕ :=
  oneStated (ascii "[[feed]] idle_guard") stated 60000000000

/-- The window a configuration gives the idle guard is not zero, and fits the clock. -/
theorem idleGuardOf_fits {stated : List (Option ℕ)} {window : ℕ}
    (hread : ∀ ns, some ns ∈ stated → ∃ raw, parseDuration raw = .ok ns)
    (h : idleGuardOf stated = .ok window) : 0 < window ∧ window < 2 ^ 64 := by
  rw [idleGuardOf, oneStated] at h
  cases hsettle : settle (ascii "[[feed]] idle_guard") none (stated.filterMap id) with
  | error e =>
      rw [hsettle] at h
      cases h
  | ok settled =>
      rw [hsettle] at h
      cases settled with
      | none =>
          obtain rfl : 60000000000 = window := Except.ok.inj h
          decide
      | some ns =>
          obtain rfl : ns = window := Except.ok.inj h
          obtain ⟨hmem, hpos⟩ := (settle_mem hsettle).resolve_left (Option.some_ne_none ns).symm
          obtain ⟨o, ho, rfl⟩ := List.mem_filterMap.mp hmem
          obtain ⟨raw, hraw⟩ := hread ns ho
          exact ⟨hpos, lt_of_parseDuration hraw⟩

end EdgeMulticast.Runtime
