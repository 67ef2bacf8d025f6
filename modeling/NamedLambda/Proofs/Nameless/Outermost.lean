import Mathlib.Data.List.Nodup
import Mathlib.Data.List.Perm.Basic
import NamedLambda.Proofs.Nameless.Development

/-!
Outermost redexes, by the way that leads to them from the root. None of them lies inside another,
so contracting them one after the other gives the same term in every order: what one pass makes.
-/
namespace NamedLambda

/-- The child that is gone on to. -/
inductive Turn where
  | body | function | argument
  deriving DecidableEq, Repr

/-- The way from the root of a term to one of its subterms. -/
abbrev Path := List Turn

namespace Nameless

def subtermAt? : Nameless → Path → Option Nameless
  | t, [] => some t
  | .lam t, .body :: p => t.subtermAt? p
  | .app f _, .function :: p => f.subtermAt? p
  | .app _ a, .argument :: p => a.subtermAt? p
  | _, _ :: _ => none

def IsRedexAt (t : Nameless) (p : Path) : Prop :=
  ∃ b a, t.subtermAt? p = some (.app (.lam b) a)

/-- A redex is at the end of the way, and none is passed on it. -/
def IsOutermostAt (t : Nameless) (p : Path) : Prop :=
  t.IsRedexAt p ∧ ∀ q, q <+: p → t.IsRedexAt q → q = p

/-- Contracts the one redex at the end of the way, if there is one. -/
def contractAt : Nameless → Path → Nameless
  | .app (.lam b) a, [] => beta b a
  | .lam t, .body :: p => .lam (t.contractAt p)
  | .app f a, .function :: p => .app (f.contractAt p) a
  | .app f a, .argument :: p => .app f (a.contractAt p)
  | t, _ => t

/-- Contracts the redexes at the ends of these ways, one after the other. -/
def contractEach (t : Nameless) (ps : List Path) : Nameless :=
  ps.foldl contractAt t

/-- Every outermost redex is contracted, each of them once, and nothing else is. -/
def ContractsOutermost (t u : Nameless) : Prop :=
  ∃ ps : List Path, ps.Nodup ∧ (∀ p, p ∈ ps ↔ t.IsOutermostAt p) ∧ u = t.contractEach ps

/-- The ways to the outermost redexes, from left to right. -/
def outermost : Nameless → List Path
  | .app (.lam _) _ => [[]]
  | .app f a => f.outermost.map (.function :: ·) ++ a.outermost.map (.argument :: ·)
  | .lam t => t.outermost.map (.body :: ·)
  | _ => []

theorem isRedexAt_nil {t : Nameless} : t.IsRedexAt [] ↔ ∃ b a, t = .app (.lam b) a := by
  simp [IsRedexAt, subtermAt?]

/-- Below a root that is no redex, the outermost redexes are those of the child gone on to. -/
theorem isOutermostAt_cons {t u : Nameless} {k : Turn}
    (hsub : ∀ p, t.subtermAt? (k :: p) = u.subtermAt? p) (hroot : ¬ t.IsRedexAt []) (p : Path) :
    t.IsOutermostAt (k :: p) ↔ u.IsOutermostAt p := by
  have hredex : ∀ q, t.IsRedexAt (k :: q) ↔ u.IsRedexAt q := by
    intro q
    simp only [IsRedexAt, hsub]
  constructor
  · rintro ⟨hp, hfirst⟩
    refine ⟨(hredex p).mp hp, fun q hq hr => ?_⟩
    have heq := hfirst (k :: q) (List.cons_prefix_cons.mpr ⟨rfl, hq⟩) ((hredex q).mpr hr)
    exact (List.cons.inj heq).2
  · rintro ⟨hp, hfirst⟩
    refine ⟨(hredex p).mpr hp, fun q hq hr => ?_⟩
    rcases List.prefix_cons_iff.mp hq with rfl | ⟨q', rfl, hq'⟩
    · exact absurd hr hroot
    · rw [hfirst q' hq' ((hredex q').mp hr)]

/-- A way that leaves the term leads to no redex. -/
theorem not_isOutermostAt {t : Nameless} {p : Path} (h : t.subtermAt? p = none) :
    ¬ t.IsOutermostAt p := by
  rintro ⟨⟨b, a, hsub⟩, -⟩
  rw [h] at hsub
  cases hsub

theorem mem_outermost {t : Nameless} {p : Path} : p ∈ t.outermost ↔ t.IsOutermostAt p := by
  fun_induction outermost t generalizing p with
  | case1 b a =>
    have hroot : (app (lam b) a).IsRedexAt [] := isRedexAt_nil.mpr ⟨b, a, rfl⟩
    rw [List.mem_singleton]
    constructor
    · rintro rfl
      exact ⟨hroot, fun q hq _ => List.prefix_nil.mp hq⟩
    · intro hp
      exact (hp.2 [] List.nil_prefix hroot).symm
  | case2 f a hf ihf iha =>
    have hroot : ¬ (app f a).IsRedexAt [] := by
      rintro ⟨b, c, heq⟩
      cases heq
      exact hf b rfl
    rcases p with _ | ⟨_ | _ | _, p⟩
    · simpa [IsOutermostAt] using fun h => absurd h hroot
    · simpa using not_isOutermostAt (t := app f a) rfl
    · simpa [ihf] using (isOutermostAt_cons (fun _ => rfl) hroot p).symm
    · simpa [iha] using (isOutermostAt_cons (fun _ => rfl) hroot p).symm
  | case3 t ih =>
    have hroot : ¬ (lam t).IsRedexAt [] := by
      rintro ⟨b, c, heq⟩
      cases heq
    rcases p with _ | ⟨_ | _ | _, p⟩
    · simpa [IsOutermostAt] using fun h => absurd h hroot
    · simpa [ih] using (isOutermostAt_cons (fun _ => rfl) hroot p).symm
    all_goals simpa using not_isOutermostAt (t := lam t) rfl
  | case4 t hredex happ hlam =>
    rw [iff_false_intro List.not_mem_nil, false_iff]
    rintro ⟨⟨b, a, hsub⟩, -⟩
    cases t with
    | bound _ | free _ | const _ => cases p <;> simp [subtermAt?] at hsub
    | lam t => exact hlam t rfl
    | app f a => exact happ f a rfl

theorem nodup_outermost (t : Nameless) : t.outermost.Nodup := by
  have hcons : ∀ k : Turn, Function.Injective (k :: · : Path → Path) := by
    intro k p q h
    exact (List.cons.inj h).2
  fun_induction outermost t with
  | case1 b a => exact List.nodup_singleton []
  | case2 f a hf ihf iha =>
    refine List.nodup_append.mpr ⟨ihf.map (hcons _), iha.map (hcons _), ?_⟩
    intro p hp q hq heq
    obtain ⟨p', -, rfl⟩ := List.mem_map.mp hp
    obtain ⟨q', -, rfl⟩ := List.mem_map.mp hq
    cases heq
  | case3 t ih => exact ih.map (hcons _)
  | case4 => exact List.nodup_nil

section
variable (t f a : Nameless) (p : Path)

@[simp] theorem contractAt_body : (lam t).contractAt (.body :: p) = lam (t.contractAt p) := by
  rw [contractAt]

@[simp] theorem contractAt_function :
    (app f a).contractAt (.function :: p) = app (f.contractAt p) a := by
  rw [contractAt]

@[simp] theorem contractAt_argument :
    (app f a).contractAt (.argument :: p) = app f (a.contractAt p) := by
  rw [contractAt]

@[simp] theorem contractAt_lam_function : (lam t).contractAt (.function :: p) = lam t := by
  simp [contractAt]

@[simp] theorem contractAt_lam_argument : (lam t).contractAt (.argument :: p) = lam t := by
  simp [contractAt]

@[simp] theorem contractAt_app_body : (app f a).contractAt (.body :: p) = app f a := by
  simp [contractAt]

end

/-- Two redexes, neither on the way to the other, are contracted in either order. -/
theorem contractAt_comm {p q : Path} (hpq : ¬ p <+: q) (hqp : ¬ q <+: p) (t : Nameless) :
    (t.contractAt p).contractAt q = (t.contractAt q).contractAt p := by
  induction p generalizing q t with
  | nil => exact absurd List.nil_prefix hpq
  | cons i p ih =>
    rcases q with _ | ⟨j, q⟩
    · exact absurd List.nil_prefix hqp
    have hrest : i = j → ∀ u : Nameless,
        (u.contractAt p).contractAt q = (u.contractAt q).contractAt p := by
      rintro rfl
      exact ih (fun h => hpq (List.cons_prefix_cons.mpr ⟨rfl, h⟩))
        (fun h => hqp (List.cons_prefix_cons.mpr ⟨rfl, h⟩))
    cases t with
    | bound _ | free _ | const _ => rfl
    | lam t =>
      cases i <;> cases j <;>
        simp only [contractAt_body, contractAt_lam_function, contractAt_lam_argument, hrest]
    | app f a =>
      cases i <;> cases j <;>
        simp only [contractAt_app_body, contractAt_function, contractAt_argument, hrest]

theorem contractEach_body (t : Nameless) (ps : List Path) :
    (lam t).contractEach (ps.map (.body :: ·)) = .lam (t.contractEach ps) := by
  induction ps generalizing t with
  | nil => rfl
  | cons p ps ih => exact ih (t.contractAt p)

theorem contractEach_function (f a : Nameless) (ps : List Path) :
    (app f a).contractEach (ps.map (.function :: ·)) = .app (f.contractEach ps) a := by
  induction ps generalizing f with
  | nil => rfl
  | cons p ps ih =>
    rw [List.map_cons, contractEach, List.foldl_cons, contractAt_function]
    exact ih (f.contractAt p)

theorem contractEach_argument (f a : Nameless) (ps : List Path) :
    (app f a).contractEach (ps.map (.argument :: ·)) = .app f (a.contractEach ps) := by
  induction ps generalizing a with
  | nil => rfl
  | cons p ps ih =>
    rw [List.map_cons, contractEach, List.foldl_cons, contractAt_argument]
    exact ih (a.contractAt p)

theorem contractEach_outermost (t : Nameless) : t.contractEach t.outermost = t.pass := by
  fun_induction outermost t with
  | case1 b a => rfl
  | case2 f a hf ihf iha =>
    have happend : ∀ ps qs, (app f a).contractEach (ps ++ qs) =
        ((app f a).contractEach ps).contractEach qs := fun ps qs => List.foldl_append
    rw [happend, contractEach_function, contractEach_argument, ihf, iha, pass_app hf]
  | case3 t ih => rw [contractEach_body, ih, pass]
  | case4 t hredex happ hlam =>
    cases t with
    | bound _ | free _ | const _ => rfl
    | lam t => exact absurd rfl (hlam t)
    | app f a => exact absurd rfl (happ f a)

/-- The order in which the outermost redexes are contracted makes no difference. -/
theorem contractsOutermost_iff {t u : Nameless} : t.ContractsOutermost u ↔ u = t.pass := by
  constructor
  · rintro ⟨ps, hnodup, hmem, rfl⟩
    have hperm : ps.Perm t.outermost := by
      rw [List.perm_ext_iff_of_nodup hnodup t.nodup_outermost]
      intro p
      rw [hmem, mem_outermost]
    rw [← contractEach_outermost]
    apply hperm.foldl_eq'
    intro p hp q hq v
    by_cases hpq : p = q
    · rw [hpq]
    · obtain ⟨hpr, hpo⟩ := (hmem p).mp hp
      obtain ⟨hqr, hqo⟩ := (hmem q).mp hq
      exact contractAt_comm (fun h => hpq (hqo p h hpr)) (fun h => hpq (hpo q h hqr).symm) v
  · rintro rfl
    exact ⟨t.outermost, t.nodup_outermost, fun p => mem_outermost, (contractEach_outermost t).symm⟩

end Nameless

end NamedLambda
