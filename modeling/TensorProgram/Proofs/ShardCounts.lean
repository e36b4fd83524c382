import Mathlib.Algebra.BigOperators.Group.List.Lemmas
import Mathlib.Data.Nat.Factorization.PrimePow
import Mathlib.Tactic.Ring
import TensorProgram.Proofs.AxisUse
import TensorProgram.Proofs.Meshes

/-!
# How many shards a sharding makes

The parts of a mesh axis that an accepted sharding uses take at most as many places as the axis
has.  They need not divide it: the parts `(1)2` and `(3)2` of an axis of six places do not overlap
and make four shards, `six_places_in_four`.  The parts of an axis always divide it when its size
is a power of a prime, and for no other size, `parts_dvd_iff_primePow`; for other sizes they divide
it when they nest.

The product of non-overlapping parts is bounded by taking one part and putting the others below and
above it, `mul_prod_of_apart`.  The same argument gives bounds and divisibility.
-/

namespace TensorProgram

/-! ## Ranges that follow each other -/

/-- Ranges that follow each other between two numbers have sizes with a product that fits between
them, for every relation that products keep. -/
theorem mul_prod_of_apart {R : Nat → Nat → Prop} (htrans : ∀ {a b c}, R a b → R b c → R a c)
    (hmul : ∀ {a b} c, R a b → R (a * c) (b * c)) {low high : Nat} {ranges : List (Nat × Nat)}
    (hbounds : R low high) (hwithin : ∀ r ∈ ranges, R low r.1 ∧ R (r.1 * r.2) high)
    (hapart : ranges.Pairwise fun a b => R (a.1 * a.2) b.1 ∨ R (b.1 * b.2) a.1) :
    R (low * (ranges.map Prod.snd).prod) high := by
  classical
  induction hlength : ranges.length using Nat.strong_induction_on generalizing ranges low high with
  | _ length ih =>
    cases ranges with
    | nil => simpa using hbounds
    | cons r rest =>
      obtain ⟨start, size⟩ := r
      rw [List.forall_mem_cons] at hwithin
      rw [List.pairwise_cons] at hapart
      obtain ⟨⟨hstart, hstop⟩, hwithin⟩ := hwithin
      obtain ⟨hfirst, hapart⟩ := hapart
      rw [List.length_cons] at hlength
      have hbelow :
          R (low * ((rest.filter fun b => R (b.1 * b.2) start).map Prod.snd).prod) start := by
        refine ih _ ?_ hstart (fun b hb => ?_) (hapart.filter _) rfl
        · have := List.length_filter_le (fun b : Nat × Nat => decide (R (b.1 * b.2) start)) rest
          omega
        · obtain ⟨hmem, hb⟩ := List.mem_filter.mp hb
          exact ⟨(hwithin b hmem).1, by simpa using hb⟩
      have habove : R (start * size *
          ((rest.filter fun b => ¬ R (b.1 * b.2) start).map Prod.snd).prod) high := by
        refine ih _ ?_ hstop (fun b hb => ?_) (hapart.filter _) rfl
        · have := List.length_filter_le (fun b : Nat × Nat => decide (¬ R (b.1 * b.2) start)) rest
          omega
        · obtain ⟨hmem, hb⟩ := List.mem_filter.mp hb
          exact ⟨(hfirst b hmem).resolve_right (by simpa using hb), (hwithin b hmem).2⟩
      rw [List.map_cons, List.prod_cons, ← List.prod_map_filter_mul_prod_map_filter_not
        (fun b : Nat × Nat => R (b.1 * b.2) start) Prod.snd rest]
      have hput := hmul
        (size * ((rest.filter fun b => ¬ R (b.1 * b.2) start).map Prod.snd).prod) hbelow
      rw [← Nat.mul_assoc start] at hput
      rw [show ∀ a b c d : Nat, a * (b * (c * d)) = a * c * (b * d) by intros; ring]
      exact htrans hput habove

/-! ## Parts of an axis -/

namespace AxisReference

/-- The start and the size of a part of the axis with a name. -/
def partOf? (name : String) : AxisReference → Option (Nat × Nat)
  | whole _ => none
  | part name' preSize size => if name' = name then some (preSize, size) else none

/-- The number of places that a reference takes. -/
def places (m : Mesh) : AxisReference → Nat
  | whole name => (m.axisSize? name).getD 1
  | part _ _ size => size

theorem partOf?_eq_some {r : AxisReference} {name : String} {a : Nat × Nat} :
    r.partOf? name = some a ↔ r = part name a.1 a.2 := by
  obtain ⟨preSize, size⟩ := a
  cases r with
  | whole name' => simp [partOf?]
  | part name' preSize' size' =>
    simp only [partOf?, part.injEq]
    split_ifs with h
    · simp [h]
    · simp [h]

end AxisReference

namespace Sharding

variable {m : Mesh} {s : Sharding} {axes : List AxisSharding} {axis : MeshAxis} {name : String}

/-- The parts of the axis with a name that a sharding uses, each with its start and its size. -/
def partsOf (s : Sharding) (name : String) : List (Nat × Nat) :=
  s.references.filterMap (AxisReference.partOf? name)

/-- The number of shards that the parts of the axis with a name make. -/
def partProduct (s : Sharding) (name : String) : Nat :=
  ((s.partsOf name).map Prod.snd).prod

/-- The number of shards of a sharding. -/
def shardCount (s : Sharding) : Nat :=
  (s.references.map (AxisReference.places s.mesh)).prod

/-- Of every two parts of the axis, one ends at a divisor of where the other starts. -/
def Nested (s : Sharding) (name : String) : Prop :=
  (s.partsOf name).Pairwise fun a b => a.1 * a.2 ∣ b.1 ∨ b.1 * b.2 ∣ a.1

instance : Decidable (s.Nested name) :=
  inferInstanceAs (Decidable (List.Pairwise _ _))

theorem ofAxes_eq_ok : Sharding.ofAxes m axes = .ok s ↔ s = ⟨m, axes⟩ ∧ s.validate = .ok () := by
  simp only [Sharding.ofAxes, bind_eq_ok, pure_eq_ok, Except.ok.injEq]
  constructor
  · rintro ⟨_, hvalid, rfl⟩
    exact ⟨rfl, hvalid⟩
  · rintro ⟨rfl, hvalid⟩
    exact ⟨(), hvalid, rfl⟩

section Valid

variable (hm : s.mesh.WellFormed) (hs : s.validate = .ok ()) (haxis : axis ∈ s.mesh.axes)

include hs in
theorem references_pairwise : s.references.Pairwise AxisReference.Compatible :=
  (validate_eq_ok.mp hs).2.2

include hm hs haxis in
/-- A part that is used divides its axis. -/
theorem partsOf_within {a : Nat × Nat} (ha : a ∈ s.partsOf axis.name) :
    0 < a.1 ∧ 0 < a.2 ∧ a.1 * a.2 ∣ axis.size := by
  obtain ⟨r, hr, hpart⟩ := List.mem_filterMap.mp ha
  obtain rfl := AxisReference.partOf?_eq_some.mp hpart
  obtain ⟨n, hn, hfits⟩ := (validate_eq_ok.mp hs).2.1 _ hr
  obtain rfl : n = axis.size := Option.some.inj (hn.symm.trans (hm.axisSize?_eq_some.mpr haxis))
  exact hfits

include hs in
/-- The parts that are used of one axis do not overlap. -/
theorem partsOf_apart :
    (s.partsOf name).Pairwise fun a b => a.1 * a.2 ≤ b.1 ∨ b.1 * b.2 ≤ a.1 := by
  refine (references_pairwise hs).filterMap _ fun r r' hcompatible a ha b hb => ?_
  obtain rfl := AxisReference.partOf?_eq_some.mp ha
  obtain rfl := AxisReference.partOf?_eq_some.mp hb
  exact hcompatible rfl

include hm hs haxis in
/-- The parts of an axis make at most as many shards as the axis has places. -/
theorem partProduct_le : s.partProduct axis.name ≤ axis.size := by
  have hpos : 0 < axis.size := hm.positive axis haxis
  have hwithin : ∀ a ∈ s.partsOf axis.name, 1 ≤ a.1 ∧ a.1 * a.2 ≤ axis.size := by
    intro a ha
    obtain ⟨hstart, _, hdvd⟩ := partsOf_within hm hs haxis ha
    exact ⟨hstart, Nat.le_of_dvd hpos hdvd⟩
  have h : 1 * s.partProduct axis.name ≤ axis.size :=
    mul_prod_of_apart (R := (· ≤ ·)) Nat.le_trans (fun c hab => Nat.mul_le_mul_right c hab) hpos
      hwithin (partsOf_apart hs)
  rwa [Nat.one_mul] at h

include hm hs haxis in
/-- Parts that nest make a number of shards that divides the size of the axis. -/
theorem partProduct_dvd (hnested : s.Nested axis.name) :
    s.partProduct axis.name ∣ axis.size := by
  have h : 1 * s.partProduct axis.name ∣ axis.size :=
    mul_prod_of_apart (R := (· ∣ ·)) Nat.dvd_trans (fun c hab => Nat.mul_dvd_mul_right hab c)
      (Nat.one_dvd axis.size)
      (fun a ha => ⟨Nat.one_dvd _, (partsOf_within hm hs haxis ha).2.2⟩) hnested
  rwa [Nat.one_mul] at h

/-- Of two divisors of a power of a prime, the smaller one divides the other. -/
theorem dvd_of_le_of_dvd_primePow {n a b : Nat} (hn : n = 1 ∨ IsPrimePow n) (ha : a ∣ n)
    (hb : b ∣ n) (hab : a ≤ b) : a ∣ b := by
  rcases hn with rfl | hn
  · rw [Nat.dvd_one] at ha
    rw [ha]
    exact Nat.one_dvd b
  · obtain ⟨p, k, hp, _, rfl⟩ := (isPrimePow_nat_iff n).mp hn
    obtain ⟨i, _, rfl⟩ := (Nat.dvd_prime_pow hp).mp ha
    obtain ⟨j, _, rfl⟩ := (Nat.dvd_prime_pow hp).mp hb
    exact Nat.pow_dvd_pow p ((Nat.pow_le_pow_iff_right hp.one_lt).mp hab)

include hm hs haxis in
/-- The parts of an axis nest when its size is a power of a prime. -/
theorem nested_of_primePow (hn : axis.size = 1 ∨ IsPrimePow axis.size) : s.Nested axis.name := by
  refine (partsOf_apart hs).imp_of_mem fun {a b} ha hb hapart => ?_
  obtain ⟨_, _, hdvdA⟩ := partsOf_within hm hs haxis ha
  obtain ⟨_, _, hdvdB⟩ := partsOf_within hm hs haxis hb
  rcases hapart with h | h
  · exact .inl (dvd_of_le_of_dvd_primePow hn hdvdA (dvd_of_mul_right_dvd hdvdB) h)
  · exact .inr (dvd_of_le_of_dvd_primePow hn hdvdB (dvd_of_mul_right_dvd hdvdA) h)

end Valid

/-! ## Shards of all axes -/

/-- The references to one axis are a reference to the whole axis, or references to its parts. -/
theorem filter_name_eq {rs : List AxisReference} (h : rs.Pairwise AxisReference.Compatible)
    (name : String) :
    rs.filter (·.name == name) = [.whole name] ∨
      rs.filter (·.name == name) =
        (rs.filterMap (AxisReference.partOf? name)).map fun a => .part name a.1 a.2 := by
  induction rs with
  | nil => exact .inr rfl
  | cons r rs ih =>
    obtain ⟨hfirst, hrest⟩ := List.pairwise_cons.mp h
    by_cases hname : r.name = name
    · rw [List.filter_cons_of_pos (by simpa using hname)]
      cases r with
      | whole name' =>
        obtain rfl : name' = name := hname
        -- nothing goes together with the whole axis
        refine .inl (congrArg _ (List.filter_eq_nil_iff.mpr fun r' hr' hsame => ?_))
        exact hfirst r' hr' (beq_iff_eq.mp hsame).symm
      | part name' preSize size =>
        obtain rfl : name' = name := hname
        refine .inr ?_
        rcases ih hrest with hwhole | hparts
        · have hmem : .whole name' ∈ rs.filter (·.name == name') :=
            hwhole ▸ List.mem_singleton_self _
          exact (hfirst _ (List.mem_of_mem_filter hmem) rfl).elim
        · have hpart : (AxisReference.part name' preSize size).partOf? name' =
              some (preSize, size) :=
            AxisReference.partOf?_eq_some.mpr rfl
          rw [List.filterMap_cons_some hpart, List.map_cons, ← hparts]
    · rw [List.filter_cons_of_neg (by simpa using hname), List.filterMap_cons_none]
      · exact ih hrest
      · rw [Option.eq_none_iff_forall_ne_some]
        rintro a hpart
        obtain rfl := AxisReference.partOf?_eq_some.mp hpart
        exact hname rfl

/-- A product over references is taken name by name. -/
theorem prod_fibers (f : AxisReference → Nat) {names : List String} (hnames : names.Nodup)
    {rs : List AxisReference} (hknown : ∀ r ∈ rs, r.name ∈ names) :
    (rs.map f).prod =
      (names.map fun name => ((rs.filter (·.name == name)).map f).prod).prod := by
  induction rs with
  | nil => simp
  | cons r rs ih =>
    rw [List.forall_mem_cons] at hknown
    have hsplit (name : String) : (((r :: rs).filter (·.name == name)).map f).prod =
        (if r.name = name then f r else 1) * ((rs.filter (·.name == name)).map f).prod := by
      rw [List.filter_cons]
      simp only [beq_iff_eq]
      split_ifs <;> simp
    have hone : (names.map fun name => if r.name = name then f r else 1).prod = f r := by
      rw [(List.perm_cons_erase hknown.1).map _ |>.prod_eq, List.map_cons, List.prod_cons,
        List.prod_eq_one, if_pos rfl, Nat.mul_one]
      intro x hx
      obtain ⟨name, hname, rfl⟩ := List.mem_map.mp hx
      exact if_neg fun h => (hnames.mem_erase_iff.mp hname).1 h.symm
    simp only [hsplit, List.prod_map_mul, hone, ← ih hknown.2, List.map_cons, List.prod_cons]

section Valid

variable (hm : s.mesh.WellFormed) (hs : s.validate = .ok ())

include hm hs in
/-- The shards are counted axis by axis. -/
theorem shardCount_eq :
    s.shardCount = (s.mesh.axes.map fun axis =>
      ((s.references.filter (·.name == axis.name)).map
        (AxisReference.places s.mesh)).prod).prod := by
  rw [shardCount, prod_fibers _ hm.names, List.map_map]
  · rfl
  · intro r hr
    have hfits := (validate_eq_ok.mp hs).2.1 r hr
    have hsize : ∃ n, s.mesh.axisSize? r.name = some n := by
      cases r with
      | whole name => exact hfits
      | part name preSize size => exact ⟨hfits.choose, hfits.choose_spec.1⟩
    obtain ⟨n, hn⟩ := hsize
    exact List.mem_map.mpr ⟨_, hm.axisSize?_eq_some.mp hn, rfl⟩

include hm hs in
/-- The references to one axis make as many shards as the axis has places, or as its parts do. -/
theorem shards_of_axis (haxis : axis ∈ s.mesh.axes) :
    ((s.references.filter (·.name == axis.name)).map (AxisReference.places s.mesh)).prod =
        axis.size ∨
      ((s.references.filter (·.name == axis.name)).map (AxisReference.places s.mesh)).prod =
        s.partProduct axis.name := by
  rcases filter_name_eq (references_pairwise hs) axis.name with h | h
  · have hsize := hm.axisSize?_eq_some.mpr haxis
    left
    rw [h]
    simp [AxisReference.places, hsize]
  · right
    rw [h, List.map_map]
    rfl

include hm hs in
/-- There are at most as many shards as devices. -/
theorem shardCount_le : s.shardCount ≤ s.mesh.deviceCount := by
  rw [shardCount_eq hm hs, Mesh.deviceCount_eq]
  refine List.prod_le_prod' fun axis haxis => ?_
  rcases shards_of_axis hm hs haxis with h | h
  · exact h.le
  · exact h ▸ partProduct_le hm hs haxis

include hm hs in
/-- The number of shards divides the number of devices when the parts of each axis divide it. -/
theorem shardCount_dvd (heven : ∀ axis ∈ s.mesh.axes, s.partProduct axis.name ∣ axis.size) :
    s.shardCount ∣ s.mesh.deviceCount := by
  rw [shardCount_eq hm hs, Mesh.deviceCount_eq]
  have h := Multiset.prod_dvd_prod_of_dvd (S := (s.mesh.axes : Multiset MeshAxis))
    (fun axis => ((s.references.filter (·.name == axis.name)).map
      (AxisReference.places s.mesh)).prod) MeshAxis.size fun axis haxis => by
        rcases shards_of_axis hm hs haxis with h | h
        · exact h ▸ Nat.dvd_refl _
        · exact h ▸ heven axis haxis
  simpa only [Multiset.map_coe, Multiset.prod_coe] using h

end Valid

/-! ## Axes that are not divided evenly -/

/-- A number that is no power of a prime is divided by powers of two primes, and the smaller of the
two primes' full powers can be followed by one more factor. -/
theorem exists_uneven {n : Nat} (hn : 1 < n) (hpow : ¬ IsPrimePow n) :
    ∃ a b p, 0 < a ∧ a ∣ n ∧ a ≤ b ∧ 0 < p ∧ b * p ∣ n ∧ ¬ a * p ∣ n := by
  have hstep {p q : Nat} (hp : p.Prime) (hq : q.Prime) (hpq : p ≠ q) (hpn : p ∣ n)
      (hle : ordProj[p] n ≤ ordProj[q] n) :
      ∃ a b p, 0 < a ∧ a ∣ n ∧ a ≤ b ∧ 0 < p ∧ b * p ∣ n ∧ ¬ a * p ∣ n := by
    refine ⟨ordProj[p] n, ordProj[q] n, p, Nat.pow_pos hp.pos, Nat.ordProj_dvd n p, hle, hp.pos,
      ?_, ?_⟩
    · have hcoprime : (ordProj[q] n).Coprime p :=
        Nat.Coprime.pow_left _ ((Nat.coprime_primes hq hp).mpr hpq.symm)
      exact hcoprime.mul_dvd_of_dvd_of_dvd (Nat.ordProj_dvd n q) hpn
    · rw [← Nat.pow_succ]
      exact Nat.pow_succ_factorization_not_dvd (by omega) hp
  obtain ⟨p, hp, hpn⟩ := Nat.exists_prime_and_dvd (Nat.ne_of_gt hn)
  obtain ⟨q, ⟨hq, hqn⟩, hqp⟩ : ∃ q, (q.Prime ∧ q ∣ n) ∧ q ≠ p := by
    by_contra hall
    refine hpow (isPrimePow_iff_unique_prime_dvd.mpr ⟨p, ⟨hp, hpn⟩, fun q hq => ?_⟩)
    by_contra hqp
    exact hall ⟨q, hq, hqp⟩
  rcases Nat.le_total (ordProj[p] n) (ordProj[q] n) with h | h
  · exact hstep hp hq hqp.symm hpn h
  · exact hstep hq hp hqp hqn h

/-- The sharding of two tensor axes over two parts of a mesh axis. -/
def overTwoParts (m : Mesh) (name : String) (first second : Nat × Nat) : Sharding :=
  ⟨m, [.sharded [.part name first.1 first.2], .sharded [.part name second.1 second.2]]⟩

theorem references_overTwoParts {first second : Nat × Nat} :
    (overTwoParts m name first second).references =
      [.part name first.1 first.2, .part name second.1 second.2] :=
  rfl

theorem partProduct_overTwoParts {first second : Nat × Nat} :
    (overTwoParts m name first second).partProduct name = first.2 * second.2 := by
  simp [partProduct, partsOf, references_overTwoParts, AxisReference.partOf?]

/-- An axis with a size that is no power of a prime has two parts that do not overlap and do not
divide it evenly. -/
theorem exists_uneven_sharding (hm : m.WellFormed) (haxis : axis ∈ m.axes) (hsize : axis.size ≠ 1)
    (hpow : ¬ IsPrimePow axis.size) :
    ∃ axes s, Sharding.ofAxes m axes = .ok s ∧ ¬ s.partProduct axis.name ∣ axis.size := by
  have hpos := hm.positive axis haxis
  obtain ⟨a, b, p, ha, han, hab, hp, hbpn, hnot⟩ := exists_uneven (by omega) hpow
  have hfound := hm.axisSize?_eq_some.mpr haxis
  refine ⟨_, overTwoParts m axis.name (1, a) (b, p), ofAxes_eq_ok.mpr ⟨rfl, ?_⟩, ?_⟩
  · refine validate_eq_ok.mpr ⟨by simp [overTwoParts], ?_, ?_⟩
    · rw [references_overTwoParts, List.forall_mem_cons, List.forall_mem_singleton]
      exact ⟨⟨axis.size, hfound, Nat.one_pos, ha, by rwa [Nat.one_mul]⟩,
        ⟨axis.size, hfound, Nat.lt_of_lt_of_le ha hab, hp, hbpn⟩⟩
    · rw [references_overTwoParts, List.pairwise_pair]
      exact fun _ => .inl (by rwa [Nat.one_mul])
  · rwa [partProduct_overTwoParts]

/-- An axis of six places has a part of two places at its start and one of two places after the
first three.  They are accepted together, and make four shards of six devices. -/
theorem six_places_in_four :
    let m : Mesh := ⟨"mesh", [⟨"x", 6⟩], none⟩
    let s : Sharding := ⟨m, [.sharded [.part "x" 1 2], .sharded [.part "x" 3 2]]⟩
    Mesh.ofAxes "mesh" ["x"] [6] = .ok m ∧ Sharding.ofAxes m s.axes = .ok s ∧
      s.partProduct "x" = 4 ∧ s.shardCount = 4 ∧ m.deviceCount = 6 ∧ ¬ 4 ∣ 6 := by
  decide

/-- What accepted shardings make of the axes of a mesh.  The parts of an axis make at most as many
shards as the axis has places, and a number that divides the places when the parts nest.  The
number always divides the places when their number is a power of a prime, and only then.  Hence
there are at most as many shards as devices, and their number divides the number of devices when
each axis is of one of these two kinds. -/
theorem shards_of_accepted (hm : m.Built) :
    (∀ axis ∈ m.axes,
      ((∀ axes s, Sharding.ofAxes m axes = .ok s → s.partProduct axis.name ∣ axis.size) ↔
        axis.size = 1 ∨ IsPrimePow axis.size)) ∧
    ∀ axes s, Sharding.ofAxes m axes = .ok s →
      (∀ axis ∈ m.axes, s.partProduct axis.name ≤ axis.size ∧
        (s.Nested axis.name → s.partProduct axis.name ∣ axis.size)) ∧
      s.shardCount ≤ m.deviceCount ∧
      ((∀ axis ∈ m.axes, axis.size = 1 ∨ IsPrimePow axis.size ∨ s.Nested axis.name) →
        s.shardCount ∣ m.deviceCount) := by
  have hwf := hm.wellFormed
  constructor
  · intro axis haxis
    constructor
    · intro heven
      by_contra hpow
      rw [not_or] at hpow
      obtain ⟨axes, s, hs, hodd⟩ := exists_uneven_sharding hwf haxis hpow.1 hpow.2
      exact hodd (heven axes s hs)
    · rintro hpow axes s hs
      obtain ⟨rfl, hvalid⟩ := ofAxes_eq_ok.mp hs
      exact partProduct_dvd hwf hvalid haxis (nested_of_primePow hwf hvalid haxis hpow)
  · intro axes s hs
    obtain ⟨rfl, hvalid⟩ := ofAxes_eq_ok.mp hs
    refine ⟨fun axis haxis => ⟨partProduct_le hwf hvalid haxis, partProduct_dvd hwf hvalid haxis⟩,
      shardCount_le hwf hvalid, fun hkinds => shardCount_dvd hwf hvalid fun axis haxis => ?_⟩
    rcases hkinds axis haxis with h | h | h
    · exact partProduct_dvd hwf hvalid haxis (nested_of_primePow hwf hvalid haxis (.inl h))
    · exact partProduct_dvd hwf hvalid haxis (nested_of_primePow hwf hvalid haxis (.inr h))
    · exact partProduct_dvd hwf hvalid haxis h

/-- Two parts of an axis of eight places that nest, together with the whole of an axis of six
places, make twenty-four shards of forty-eight devices. -/
theorem shards_of_accepted_nested :
    let m : Mesh := ⟨"mesh", [⟨"x", 8⟩, ⟨"y", 6⟩], none⟩
    let s : Sharding :=
      ⟨m, [.sharded [.part "x" 4 2, .whole "y"], .replicated, .sharded [.part "x" 1 2]]⟩
    m.Built ∧ s.partProduct "x" ≤ 8 ∧ s.shardCount = 24 ∧ s.shardCount ∣ m.deviceCount := by
  intro m s
  have hofAxes : Mesh.ofAxes "mesh" ["x", "y"] [8, 6] = .ok m := by decide
  have hbuilt : m.Built := .ofAxes hofAxes
  obtain ⟨haxes, _, hshards⟩ := (shards_of_accepted hbuilt).2 s.axes s (by decide)
  refine ⟨hbuilt, (haxes ⟨"x", 8⟩ (by decide)).1, by decide, hshards fun axis haxis => ?_⟩
  refine .inr (.inr ?_)
  obtain rfl | rfl : axis = ⟨"x", 8⟩ ∨ axis = ⟨"y", 6⟩ := by simpa [m] using haxis
  · decide
  · decide

end Sharding

end TensorProgram
