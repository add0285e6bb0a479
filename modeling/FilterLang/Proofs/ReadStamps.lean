import FilterLang.Proofs.EncodedTrees
import FilterLang.Proofs.Stamps

/-!
# What is read as a time stamp

Whatever the spelling of a stamp, its offset is one of hours and minutes, and its
date and clock are the local reading of an instant in the years of instants.  So a
moment that was read is one whose own stamp is exact; if it is in a leap second, that
one ends a minute.
-/

namespace FilterLang
namespace Calendar

-- Powers of natural numbers are `Nat.pow`, whatever else is in scope.
attribute [local instance (high)] instPowNat

open Interchange (bind_eq_ok)

namespace Stamp

variable {text rest : List Char}

theorem readField_mem {low high value : Nat} (h : readField low high text = .ok (value, rest)) :
    low ≤ value ∧ value ≤ high := by
  obtain ⟨⟨value', rest'⟩, -, h⟩ := bind_eq_ok.1 h
  dsimp only at h
  split at h
  next hrange =>
    cases h
    exact hrange
  next => cases h

theorem readDigits_mem {limit : Nat} {digits : List Char}
    (h : readDigits limit text = .ok (digits, rest)) :
    (∀ c ∈ digits, c.isDigit = true) ∧ digits.length ≤ limit := by
  cases text with
  | nil => cases h
  | cons c tail =>
      rw [readDigits] at h
      split at h
      next =>
        cases h
        constructor
        · intro d hd
          exact List.all_eq_true.1 List.all_takeWhile d (List.mem_of_mem_take hd)
        · rw [List.length_take]
          exact Nat.min_le_left ..
      next => cases h

theorem readFraction_lt {nanos : Nat} (h : readFraction text = .ok (nanos, rest)) :
    nanos < 1000000000 := by
  unfold readFraction at h
  split at h
  next digits =>
    obtain ⟨⟨kept, rest'⟩, hkept, h⟩ := bind_eq_ok.1 h
    cases h
    obtain ⟨hdigits, hlength⟩ := readDigits_mem hkept
    exact Text.ofDigitChars_mul_pow_lt hdigits hlength
  next =>
    cases h
    decide

theorem readClock_mem {hour minute second nanos : Nat}
    (h : readClock text = .ok ((hour, minute, second, nanos), rest)) :
    (hour ≤ 23 ∧ minute ≤ 59 ∧ second ≤ 60) ∧ nanos < 1000000000 := by
  obtain ⟨⟨hour', rest₁⟩, hhour, h⟩ := bind_eq_ok.1 h
  obtain ⟨rest₂, -, h⟩ := bind_eq_ok.1 h
  obtain ⟨⟨minute', rest₃⟩, hminute, h⟩ := bind_eq_ok.1 h
  obtain ⟨rest₄, -, h⟩ := bind_eq_ok.1 h
  obtain ⟨⟨second', rest₅⟩, hsecond, h⟩ := bind_eq_ok.1 h
  obtain ⟨⟨nanos', rest₆⟩, hnanos, h⟩ := bind_eq_ok.1 h
  cases h
  exact ⟨⟨(readField_mem hhour).2, (readField_mem hminute).2, (readField_mem hsecond).2⟩,
    readFraction_lt hnanos⟩

theorem readHoursMinutes_mod {seconds : Nat} (h : readHoursMinutes text = .ok (seconds, rest)) :
    seconds % 60 = 0 := by
  obtain ⟨⟨hours, rest₁⟩, -, h⟩ := bind_eq_ok.1 h
  obtain ⟨⟨minutes, rest₂⟩, -, h⟩ := bind_eq_ok.1 h
  dsimp only at h
  split at h
  next =>
    cases h
    omega
  next => cases h

theorem readOffset_mod {offset : Int} (h : readOffset text = .ok (offset, rest)) :
    offset % 60 = 0 := by
  unfold readOffset at h
  dsimp only at h
  split at h
  next =>
    cases h
    rfl
  split at h
  next => cases h
  split at h
  next =>
    cases h
    rfl
  split at h
  next =>
    obtain ⟨⟨seconds, rest'⟩, hseconds, h⟩ := bind_eq_ok.1 h
    cases h
    have hmod := readHoursMinutes_mod hseconds
    omega
  split at h
  next =>
    obtain ⟨⟨seconds, rest'⟩, hseconds, h⟩ := bind_eq_ok.1 h
    cases h
    have hmod := readHoursMinutes_mod hseconds
    omega
  next => cases h

end Stamp

/-- The days of the years of instants. -/
theorem Date.dayNumber_mem {d : Date} (hyear : yearInRange d.year = true) :
    firstSecond ≤ d.dayNumber * 86400 ∧ d.dayNumber * 86400 + 86399 ≤ lastSecond := by
  simp only [yearInRange, Bool.and_eq_true, decide_eq_true_eq] at hyear
  have hfirst : daysBeforeYear (-262143) = -95746130 := by decide
  have hlast : daysBeforeYear (262142 + 1) = 95745399 := by decide
  have hlow := daysBeforeYear_mono hyear.1
  have hhigh := daysBeforeYear_mono (Int.add_le_add_right hyear.2 1)
  have hday := d.day_mem.1
  have hinYear := d.daysInYear_lt
  unfold Date.dayNumber Date.epoch firstSecond lastSecond
  omega

/-- The seconds of local time at the instant that a date and a clock show. -/
theorem Instant.localSeconds_of_ofCivil? {c : Civil} {offset : Int} {i : Instant}
    (hclock : c.hour ≤ 23 ∧ c.minute ≤ 59 ∧ c.second ≤ 60) (h : ofCivil? c offset = some i) :
    c.date.dayNumber * 86400 ≤ i.seconds + offset ∧
      i.seconds + offset ≤ c.date.dayNumber * 86400 + 86399 := by
  have hseconds := (eq_of_ofUnix? h).1
  by_cases hleap : c.second = 60
  · rw [if_pos hleap] at hseconds
    omega
  · rw [if_neg hleap] at hseconds
    omega

/-- Whatever is read as a moment has a stamp of its own, which shows that moment. -/
theorem Moment.exchangeable_of_ofStamp {text : List Char} {m : Moment}
    (h : Moment.ofStamp text = .ok m) : m.Exchangeable ∧ m.shown = m := by
  obtain ⟨⟨⟨year, month, day⟩, rest₁⟩, -, h⟩ := bind_eq_ok.1 h
  obtain ⟨rest₂, -, h⟩ := bind_eq_ok.1 h
  obtain ⟨⟨⟨hour, minute, second, nanos⟩, rest₃⟩, hclock, h⟩ := bind_eq_ok.1 h
  obtain ⟨⟨offset, rest₄⟩, hoffset, h⟩ := bind_eq_ok.1 h
  dsimp only at h
  split at h
  next => cases h
  split at h
  next date hdate =>
    split at h
    next hrange =>
      split at h
      next instant hinstant =>
        cases h
        obtain ⟨hmem, hnanos⟩ := Stamp.readClock_mem hclock
        have hminutes := Stamp.readOffset_mod hoffset
        have hlocal := Instant.localSeconds_of_ofCivil? hmem hinstant
        have hyear := Date.dayNumber_mem (Date.year_of_of? hdate ▸ hrange.1)
        have hleap := instant.leapEndsMinute_of_ofCivil? hnanos hminutes hinstant
        exact ⟨⟨hminutes, Int.le_trans hyear.1 hlocal.1, Int.le_trans hlocal.2 hyear.2⟩,
          (Moment.shown_eq_self_iff _).2 hleap⟩
      next => cases h
    next => cases h
  next => cases h

end Calendar
end FilterLang
