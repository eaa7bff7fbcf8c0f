import Veda.Onto.Lazy

set_option autoImplicit false

/-!
# The decoded individual

A stored individual whose lengths fit is decoded into one with the values that were written. There
is nothing left to decode then, and every getter reads what is there.

## Main definitions

* `Onto.decoded` — what is decoded of a stored individual.
* `Onto.Individual.Done` — no bytes are left.

## Main results

* `Onto.entryFits_decoded` — what is decoded fits.
* `Onto.parse_stored` — the header and everything behind it.
* `Onto.Individual.Done.get` — a getter on a decoded individual.
-/

namespace Veda.Onto

open Veda.Lib Veda.Lib.Msgpack

/-! ## Values -/

theorem Resource.fits_stored (n : ℕ) (r : Resource) : (r.stored n).Fits ↔ r.Fits := by
  obtain ⟨rtype, value, order⟩ := r
  cases rtype <;> rfl

theorem length_storedFrom (n : ℕ) (rs : List Resource) : (storedFrom n rs).length = rs.length := by
  induction rs generalizing n with
  | nil => rfl
  | cons r rs ih => rw [storedFrom, List.length_cons, ih, List.length_cons]

theorem fits_of_mem_storedFrom {n : ℕ} {rs : List Resource} (h : ∀ r ∈ rs, r.Fits) :
    ∀ r ∈ storedFrom n rs, r.Fits := by
  induction rs generalizing n with
  | nil =>
    intro r hr
    cases hr
  | cons r rs ih =>
    intro r' hr'
    rcases List.mem_cons.mp hr' with rfl | hr'
    · exact (Resource.fits_stored n r).mpr (h r List.mem_cons_self)
    · exact ih (fun x hx => h x (List.mem_cons_of_mem _ hx)) r' hr'

/-! ## Individuals -/

/-- What is decoded of a stored individual. -/
def decoded (π : IterOrder String) (obj : IndividualObj) : IndividualObj :=
  (withoutValues obj).addEntries (obj.resources.iter π)

@[simp] theorem uri_decoded (π : IterOrder String) (obj : IndividualObj) :
    (decoded π obj).uri = obj.uri := uri_addEntries _ _

theorem lookup_decoded (π : IterOrder String) (obj : IndividualObj) (p : String) :
    (decoded π obj).resources.lookup p =
      (obj.resources.lookup p).bind fun rs => if rs = [] then none else some (storedFrom 0 rs) :=
  lookup_full π p

theorem entryFits_decoded {obj : IndividualObj} (hfits : obj.AllFit) (π : IterOrder String)
    {p : String} {rs : List Resource} (h : (decoded π obj).resources.lookup p = some rs) :
    EntryFits (p, rs) := by
  rw [lookup_decoded, Option.bind_eq_some_iff] at h
  obtain ⟨values, hvalues, hrs⟩ := h
  split_ifs at hrs
  obtain rfl := Option.some.inj hrs
  obtain ⟨hname, hcount, hfit⟩ := hfits.entries p values hvalues
  refine ⟨hname, ?_, fits_of_mem_storedFrom hfit⟩
  rw [length_storedFrom]
  exact hcount

/-- No bytes are left to decode. -/
def Individual.Done (iraw : Individual) : Prop := iraw.raw.data.length ≤ iraw.raw.cur

theorem Individual.Done.get {iraw : Individual} (h : iraw.Done) {ρ : Type} (cbor : CborParser)
    (g : Getter ρ) (predicate : String) :
    iraw.get cbor g predicate = (iraw.obj.read g predicate, iraw) := by
  cases hlookup : iraw.obj.resources.lookup predicate with
  | some v => exact getLoop_some hlookup 1
  | none =>
    rw [Individual.get, Individual.getLoop, hlookup, IndividualObj.read, hlookup]
    exact if_neg (Nat.not_lt.mpr h)

/-- **A stored individual is decoded**: the header is read, and everything behind it. -/
theorem parse_stored {obj : IndividualObj} (hfits : obj.AllFit) (cbor : CborParser)
    (π : IterOrder String) :
    ∃ start, (recordOf π obj).parseRaw cbor = (.ok (), start) ∧
      (∃ fuel full, start.parseAll cbor fuel = some full) ∧
      ∀ fuel full, start.parseAll cbor fuel = some full →
        full.obj = decoded π obj ∧ full.Done := by
  obtain ⟨start, hstart, hbetween⟩ := parseRaw_toMsgpack cbor π obj hfits.uri
  obtain ⟨fuel, full, hfull, hend⟩ := hbetween.parseAll_stored hfits (List.nil_append _) cbor
  refine ⟨start, hstart, ⟨fuel, full, hfull⟩, fun fuel' full' hfull' => ?_⟩
  obtain rfl := parseAll_unique hfull hfull'
  refine ⟨hend.obj, Nat.not_lt.mp fun hlt => ?_⟩
  exact hend.cur_lt_iff.mp hlt rfl

end Veda.Onto
