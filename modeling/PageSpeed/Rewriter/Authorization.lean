import Mathlib.Data.List.Find
import PageSpeed.Rewriter.LawyerMappings

/-!
What a mapping can authorize.
-/

namespace PageSpeed.Rewriter.DomainLawyer

variable {l l' : DomainLawyer} {r : DomainRef} {granted : GoogleString → Prop} {star : Prop} {u : UrlLib}

theorem Grants.findPath (h : Grants granted star l l') (components : List GoogleString) (path : GoogleString)
    (hr : ∀ r, (l'.findPath components path).1 = some r → l.domainMap.get r.name ≠ none) :
    l.findPath components path = l'.findPath components path := by
  induction components generalizing path with
  | nil => rfl
  | cons component components ih =>
    rw [DomainLawyer.findPath, DomainLawyer.findPath]
    rw [DomainLawyer.findPath] at hr
    by_cases hpath : (l'.domainMap.get path).isSome = true
    · rw [if_pos hpath] at hr ⊢
      have hold := Option.isSome_iff_ne_none.mpr (hr _ rfl)
      rw [if_pos hold, h.id]
    · have hnew : ¬(l.domainMap.get path).isSome = true := by
        rw [Option.not_isSome_iff_eq_none] at hpath ⊢
        exact h.none_of_none hpath
      rw [if_neg hpath] at hr ⊢
      rw [if_neg hnew]
      split_ifs at hr ⊢
      · rfl
      · exact ih _ hr

theorem Grants.findWildcard (h : Grants granted star l l') (hl : Closed l) (path : GoogleString)
    (hr : l'.findWildcard path = some r) (hold : l.domainMap.get r.name ≠ none) : l.findWildcard path = some r := by
  obtain ⟨added, hadded, hnew⟩ := h.wildcards
  have hmatch : ∀ r ∈ l.wildcardedDomains, ((l'.deref r).map fun d => d.isMatch path).getD false =
      ((l.deref r).map fun d => d.isMatch path).getD false := by
    intro r hr
    obtain ⟨d, hd, hderef⟩ := get_of_points (hl.wildcards r hr)
    obtain ⟨d', hd', hname, _⟩ := h.kept r.name d hd
    rw [deref_eq (h.points (hl.wildcards r hr)), hd', hderef]
    simp only [Option.map_some, Domain.isMatch, hname]
  rw [DomainLawyer.findWildcard, hadded, List.find?_append, List.find?_congr hmatch] at hr
  rw [DomainLawyer.findWildcard]
  obtain hr | ⟨_, hr⟩ := Option.or_eq_some_iff.mp hr
  · exact hr
  · exact absurd (hnew r (List.mem_of_find?_eq_some hr)) hold

theorem Grants.findDomain (h : Grants granted star l l') (hl : Closed l) {gurl : GoogleUrl}
    (hr : l'.findDomain gurl = some r) (hold : l.domainMap.get r.name ≠ none) : l.findDomain gurl = some r := by
  have hpath : l.findAlongPath gurl = l'.findAlongPath gurl := by
    have hfound : ∀ r', (l'.findAlongPath gurl).1 = some r' → l.domainMap.get r'.name ≠ none := by
      intro r' hr'
      rw [DomainLawyer.findDomain] at hr
      dsimp only at hr
      rw [hr', Option.some_or] at hr
      obtain rfl := Option.some_inj.mp hr
      exact hold
    unfold findAlongPath at hfound ⊢
    dsimp only at hfound ⊢
    split_ifs at hfound ⊢
    · exact h.findPath _ _ hfound
    · rfl
  rw [DomainLawyer.findDomain] at hr ⊢
  rw [hpath]
  dsimp only at hr ⊢
  obtain hr | ⟨hnone, hr⟩ := Option.or_eq_some_iff.mp hr
  · rw [hr, Option.some_or]
  · rw [hnone, Option.none_or]
    exact h.findWildcard hl _ hr hold

/-- Nothing is authorized in the second lawyer that is not in the first. -/
def LeavesNothing (l l' : DomainLawyer) : Prop :=
  (l'.authorizeAllDomains = true → l.authorizeAllDomains = true) ∧ ∀ n, l'.isMarked n = true → l.isMarked n = true

theorem Grants.leavesNothing (h : Grants granted star l l') (hm : Marks granted star l) : LeavesNothing l l' := by
  refine ⟨fun hall => (h.all hall).elim (fun hall => hall) hm.all, ?_⟩
  intro n hn
  obtain ⟨d', hd', hauth⟩ := (Option.any_eq_true _ _).mp hn
  cases hd : l.domainMap.get n with
  | none => exact hm.names n (h.fresh n d' hd hd' hauth)
  | some d =>
    obtain ⟨d'', hd'', _, _, hkept⟩ := h.kept n d hd
    obtain rfl := Option.some_inj.mp (hd'.symm.trans hd'')
    obtain hauth | hgranted := hkept hauth
    · rw [isMarked, hd]
      exact hauth
    · exact hm.names n hgranted

theorem Grants.isDomainAuthorized (h : Grants granted star l l') (hl : Closed l) (hn : LeavesNothing l l')
    (request gurl : GoogleUrl) (hbefore : l.isDomainAuthorized request gurl = false) :
    l'.isDomainAuthorized request gurl = false := by
  rw [DomainLawyer.isDomainAuthorized, Bool.or_eq_false_iff, Bool.and_eq_false_iff] at hbefore ⊢
  obtain ⟨hall, hbefore⟩ := hbefore
  refine ⟨by rw [← Bool.not_eq_true] at hall ⊢; exact fun hall' => hall (hn.1 hall'), ?_⟩
  refine hbefore.imp_right fun hbefore => ?_
  rw [Bool.or_eq_false_iff] at hbefore ⊢
  refine ⟨hbefore.1, Bool.not_eq_true _ ▸ fun hafter => ?_⟩
  obtain ⟨d', hd', hauth⟩ := (Option.any_eq_true _ _).mp hafter
  obtain ⟨r, hr, hderef⟩ := Option.bind_eq_some_iff.mp hd'
  obtain ⟨hpoints', hget'⟩ := points_of_deref hderef
  have hmarked := hn.2 r.name ((Option.any_eq_true _ _).mpr ⟨d', hget', hauth⟩)
  obtain ⟨d, hd, hauth⟩ := (Option.any_eq_true _ _).mp hmarked
  have hfound := h.findDomain hl hr (by rw [hd]; exact Option.some_ne_none d)
  rw [domainAt, hfound, Option.bind_some, deref, if_pos (hpoints'.1.trans h.id), hd, Option.any_some, hauth] at hbefore
  cases hbefore.2

/-- A mapping call, rejected or not, leaves no authorization behind exactly when all that it
validates is authorized before; and then no URL becomes authorized. -/
theorem leavesNothing_iff (h : Reachable u (fun _ _ => True) l) {c : Call} (hc : c.isMapping = true) :
    (LeavesNothing l (call u c l).2 ↔ Marks (c.Validates u l) (c.ValidatesStar u l) l) ∧
    (Marks (c.Validates u l) (c.ValidatesStar u l) l → ∀ request gurl,
      l.isDomainAuthorized request gurl = false → (call u c l).2.isDomainAuthorized request gurl = false) := by
  have hsettles := settles_mapping (u := u) hc h.closed
  refine ⟨⟨fun hn => ⟨fun n hvalid => ?_, fun hstar => ?_⟩, hsettles.grants.leavesNothing⟩, ?_⟩
  · exact hn.2 n (hsettles.marks.names n hvalid)
  · exact hn.1 (hsettles.marks.all hstar)
  · intro hm
    exact hsettles.grants.isDomainAuthorized h.closed (hsettles.grants.leavesNothing hm)

/-! Shards that a wildcard names are refused, after their target is authorized. -/

def shardAll : Call := .addShard (ascii "http://a.com") (ascii "*.b.com")

theorem refused_shard_authorizes : Reachable plainUrls (fun _ _ => True) (new 0) ∧
    (call plainUrls shardAll (new 0)).1 = false ∧
    (new 0).isDomainAuthorized (plainUrl (ascii "http://w.com/")) (plainUrl (ascii "http://a.com/a")) = false ∧
    (call plainUrls shardAll (new 0)).2.isDomainAuthorized (plainUrl (ascii "http://w.com/"))
      (plainUrl (ascii "http://a.com/a")) = true :=
  ⟨.new 0, by decide, by decide, by decide⟩

def authorizedTarget : DomainLawyer := (call plainUrls (.addDomain (ascii "http://a.com")) (new 0)).2

theorem leavesNothing_iff_authorizedTarget : (call plainUrls shardAll authorizedTarget).1 = false ∧
    (call plainUrls shardAll authorizedTarget).2.isDomainAuthorized (plainUrl (ascii "http://w.com/"))
      (plainUrl (ascii "http://x.b.com/")) = false := by
  have hmarks : Marks (shardAll.Validates plainUrls authorizedTarget) (shardAll.ValidatesStar plainUrls authorizedTarget)
      authorizedTarget := by
    refine ⟨?_, ?_⟩
    · rintro n ⟨a, ha, _, ⟨_, rfl⟩ | ⟨source, ⟨hsource, _, hpasses⟩, rfl⟩⟩
      · obtain rfl := List.mem_singleton.mp ha
        decide
      · obtain rfl := List.mem_singleton.mp ha
        obtain rfl : source = ascii "*.b.com" := List.mem_singleton.mp hsource
        revert hpasses
        decide
    · rintro ⟨a, ha, _, ⟨hsource, _⟩, _⟩
      obtain rfl := List.mem_singleton.mp ha
      revert hsource
      decide
  exact ⟨by decide, (leavesNothing_iff (.call _ (.new 0)) rfl).2 hmarks _ _ (by decide)⟩

end PageSpeed.Rewriter.DomainLawyer
