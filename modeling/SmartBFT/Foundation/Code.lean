import Mathlib.Data.List.Basic
import Mathlib.Logic.Function.Basic

/-!
# Self-delimiting codes

A code writes each value as a text such that the end of the text can be seen: whatever
follows, the value and the rest are determined.  Codes are put together from those of the
components, and the text of a value is then different from that of every other one.
-/

namespace SmartBFT.Foundation

structure Code (α : Type) where
  encode : α → List Char
  unambiguous {a b : α} {r s : List Char} : encode a ++ r = encode b ++ s → a = b ∧ r = s

namespace Code

variable {α β : Type}

def text (code : Code α) (a : α) : String := String.ofList (code.encode a)

theorem text_injective (code : Code α) : Function.Injective code.text := by
  intro a b h
  have hsame : code.encode a ++ [] = code.encode b ++ [] := by
    rw [List.append_nil, List.append_nil]
    exact String.ofList_injective h
  exact (code.unambiguous hsame).1

def encodeNat : Nat → List Char
  | 0 => ['0']
  | n + 1 => '1' :: encodeNat n

def nat : Code Nat where
  encode := encodeNat
  unambiguous := by
    intro a
    induction a with
    | zero =>
      intro b r s h
      cases b with
      | zero => simpa [encodeNat] using h
      | succ b => simp [encodeNat] at h
    | succ a ih =>
      intro b r s h
      cases b with
      | zero => simp [encodeNat] at h
      | succ b =>
        simp only [encodeNat, List.cons_append, List.cons.injEq, true_and] at h
        obtain ⟨rfl, hrest⟩ := ih h
        exact ⟨rfl, hrest⟩

def pair (first : Code α) (second : Code β) : Code (α × β) where
  encode p := first.encode p.1 ++ second.encode p.2
  unambiguous := by
    rintro ⟨a, b⟩ ⟨a', b'⟩ r s h
    rw [List.append_assoc, List.append_assoc] at h
    obtain ⟨rfl, hsecond⟩ := first.unambiguous h
    obtain ⟨rfl, hrest⟩ := second.unambiguous hsecond
    exact ⟨rfl, hrest⟩

def encodeList (code : Code α) : List α → List Char
  | [] => ['0']
  | a :: as => '1' :: (code.encode a ++ encodeList code as)

def list (code : Code α) : Code (List α) where
  encode := encodeList code
  unambiguous := by
    intro as
    induction as with
    | nil =>
      intro bs r s h
      cases bs with
      | nil => simpa [encodeList] using h
      | cons b bs => simp [encodeList] at h
    | cons a as ih =>
      intro bs r s h
      cases bs with
      | nil => simp [encodeList] at h
      | cons b bs =>
        simp only [encodeList, List.cons_append, List.append_assoc, List.cons.injEq,
          true_and] at h
        obtain ⟨rfl, hlater⟩ := code.unambiguous h
        obtain ⟨rfl, hrest⟩ := ih hlater
        exact ⟨rfl, hrest⟩

def comap (code : Code β) (f : α → β) (hf : Function.Injective f) : Code α where
  encode a := code.encode (f a)
  unambiguous h := by
    obtain ⟨hsame, hrest⟩ := code.unambiguous h
    exact ⟨hf hsame, hrest⟩

def option (code : Code α) : Code (Option α) :=
  code.list.comap Option.toList (by rintro (_ | a) (_ | b) h <;> simp_all)

end Code

end SmartBFT.Foundation
