import Mathlib.Data.List.Find
import PageSpeed.Rewriter.LawyerSignature

/-!
Lawyers with the same views, the same order of wildcards and the same flag give the same answers.
-/

namespace PageSpeed.Rewriter.DomainLawyer

variable {l l' : DomainLawyer} {r r' : DomainRef} {d d' : Domain} {u : UrlLib}

def wildcardsFor (l : DomainLawyer) (path : GoogleString) : List GoogleString :=
  (l.wildcardedDomains.map DomainRef.name).filter fun n => (Wildcard.initFromSpec n).isMatch path

structure Alike (l l' : DomainLawyer) : Prop where
  views : ∀ n, (l.domainMap.get n).map l.view = (l'.domainMap.get n).map l'.view
  wildcards : ∀ path, l.wildcardsFor path = l'.wildcardsFor path
  all : l.authorizeAllDomains = l'.authorizeAllDomains
  closed : Closed l
  closed' : Closed l'

theorem Alike.isSome (h : Alike l l') (n : GoogleString) : (l.domainMap.get n).isSome = (l'.domainMap.get n).isSome := by
  rw [← Option.isSome_map, h.views n, Option.isSome_map]

theorem Alike.findPath (h : Alike l l') (components : List GoogleString) (path : GoogleString) :
    (l.findPath components path).1.map DomainRef.name = (l'.findPath components path).1.map DomainRef.name ∧
      (l.findPath components path).2 = (l'.findPath components path).2 := by
  induction components generalizing path with
  | nil => exact ⟨rfl, rfl⟩
  | cons component components ih =>
    rw [DomainLawyer.findPath, DomainLawyer.findPath, h.isSome]
    split_ifs
    · exact ⟨rfl, rfl⟩
    · exact ⟨rfl, rfl⟩
    · exact ih _

theorem findWildcard_eq (h : Closed l) (path : GoogleString) :
    (l.findWildcard path).map DomainRef.name = (l.wildcardsFor path).head? := by
  have hmatch : ∀ r ∈ l.wildcardedDomains, ((l.deref r).map fun d => d.isMatch path).getD false =
      (Wildcard.initFromSpec r.name).isMatch path := by
    intro r hr
    obtain ⟨d, hd, hderef⟩ := get_of_points (h.wildcards r hr)
    rw [hderef, Option.map_some, Option.getD_some, Domain.isMatch, h.named r.name d hd]
  rw [findWildcard, List.find?_congr hmatch, wildcardsFor, List.head?_filter, List.find?_map]
  rfl

theorem Alike.findDomain (h : Alike l l') (gurl : GoogleUrl) :
    (l.findDomain gurl).map DomainRef.name = (l'.findDomain gurl).map DomainRef.name := by
  have hpath : (l.findAlongPath gurl).1.map DomainRef.name = (l'.findAlongPath gurl).1.map DomainRef.name ∧
      (l.findAlongPath gurl).2 = (l'.findAlongPath gurl).2 := by
    unfold findAlongPath
    dsimp only
    split_ifs
    · exact h.findPath _ _
    · exact ⟨rfl, rfl⟩
  rw [DomainLawyer.findDomain, DomainLawyer.findDomain]
  dsimp only
  rw [Option.map_or, Option.map_or, findWildcard_eq h.closed, findWildcard_eq h.closed', h.wildcards, hpath.1, hpath.2]

theorem Alike.domainAt (h : Alike l l') (gurl : GoogleUrl) :
    (l.domainAt gurl).map l.view = (l'.domainAt gurl).map l'.view := by
  have hfound := h.findDomain gurl
  unfold DomainLawyer.domainAt
  cases hr : l.findDomain gurl with
  | none =>
    rw [hr] at hfound
    rw [Option.map_eq_none_iff.mp hfound.symm]
    rfl
  | some r =>
    rw [hr] at hfound
    obtain ⟨r', hr', hname⟩ := Option.map_eq_some_iff.mp hfound.symm
    rw [hr', Option.bind_some, Option.bind_some, deref_eq (points_findDomain h.closed.wildcards hr),
      deref_eq (points_findDomain h.closed'.wildcards hr'), hname]
    exact h.views r.name

theorem Alike.isDomainAuthorized (h : Alike l l') (request gurl : GoogleUrl) :
    l.isDomainAuthorized request gurl = l'.isDomainAuthorized request gurl := by
  have hany : (l.domainAt gurl).any Domain.authorized = (l'.domainAt gurl).any Domain.authorized := by
    have hview := congrArg (Option.any DomainView.authorized) (h.domainAt gurl)
    rw [Option.any_map, Option.any_map] at hview
    exact hview
  rw [DomainLawyer.isDomainAuthorized, DomainLawyer.isDomainAuthorized, h.all, hany]

theorem Alike.deref (h : Alike l l') (hr : Points l r) (hr' : Points l' r') (hname : r.name = r'.name) :
    ∃ d d', l.deref r = some d ∧ l'.deref r' = some d' ∧ l.view d = l'.view d' := by
  obtain ⟨d, hd, hderef⟩ := get_of_points hr
  obtain ⟨d', hd', hderef'⟩ := get_of_points hr'
  have hview := h.views r.name
  rw [hd, hname, hd'] at hview
  exact ⟨d, d', hderef, hderef', Option.some_inj.mp hview⟩

theorem Alike.pointer (h : Alike l l') {o o' : Option DomainRef} (ho : ∀ r, o = some r → Points l r)
    (ho' : ∀ r, o' = some r → Points l' r) (hname : o.map l.nameOf = o'.map l'.nameOf) :
    (o = none ∧ o' = none) ∨ ∃ r r' d d', o = some r ∧ o' = some r' ∧ r.name = r'.name ∧
      l.deref r = some d ∧ l'.deref r' = some d' ∧ l.view d = l'.view d' := by
  cases o with
  | none => exact Or.inl ⟨rfl, Option.map_eq_none_iff.mp hname.symm⟩
  | some r =>
    obtain ⟨r', rfl, hr⟩ := Option.map_eq_some_iff.mp hname.symm
    rw [nameOf_eq h.closed (ho r rfl), nameOf_eq h.closed' (ho' r' rfl)] at hr
    obtain ⟨d, d', hd, hd', hview⟩ := h.deref (ho r rfl) (ho' r' rfl) hr.symm
    exact Or.inr ⟨r, r', d, d', rfl, rfl, hr.symm, hd, hd', hview⟩

theorem mapUrlHelper_congr {from' to' : Domain} (hfrom : d.name = from'.name) (hto : d'.name = to'.name)
    (gurl : GoogleUrl) : mapUrlHelper u d d' gurl = mapUrlHelper u from' to' gurl := by
  rw [mapUrlHelper, mapUrlHelper, Domain.isWildcarded, Domain.isWildcarded, hfrom, hto]

theorem pointers_of_deref (h : Closed l) (hd : l.deref r = some d) {o : DomainRef} (ho : o ∈ Domain.pointers d) :
    Points l o := h.pointers r.name d (points_of_deref hd).2 o ho

theorem deref_of_domainAt {gurl : GoogleUrl} (hd : l.domainAt gurl = some d) : ∃ r, l.deref r = some d := by
  obtain ⟨r, _, hderef⟩ := Option.bind_eq_some_iff.mp hd
  exact ⟨r, hderef⟩

theorem Alike.found (h : Alike l l') (gurl : GoogleUrl) :
    (l.domainAt gurl = none ∧ l'.domainAt gurl = none) ∨ ∃ d d' r r', l.domainAt gurl = some d ∧
      l'.domainAt gurl = some d' ∧ l.view d = l'.view d' ∧ l.deref r = some d ∧ l'.deref r' = some d' := by
  have hview := h.domainAt gurl
  cases hd : l.domainAt gurl with
  | none =>
    rw [hd] at hview
    exact Or.inl ⟨rfl, Option.map_eq_none_iff.mp hview.symm⟩
  | some d =>
    rw [hd] at hview
    obtain ⟨d', hd', hview⟩ := Option.map_eq_some_iff.mp hview.symm
    obtain ⟨r, hr⟩ := deref_of_domainAt hd
    obtain ⟨r', hr'⟩ := deref_of_domainAt hd'
    exact Or.inr ⟨d, d', r, r', rfl, hd', hview.symm, hr, hr'⟩

theorem map_snd_view (l : DomainLawyer) (d : Domain) :
    (l.view d).originDomain.map Prod.snd = d.originDomain.map l.nameOf := by
  rw [view, Option.map_map]
  rfl

theorem isProxyRef_of_view (h : l.view d = l'.view d') (hr : d.originDomain = some r)
    (hr' : d'.originDomain = some r') : l.isProxyRef r = l'.isProxyRef r' := by
  have horigin := congrArg DomainView.originDomain h
  simp only [view, hr, hr', Option.map_some, Option.some.injEq, Prod.mk.injEq] at horigin
  exact horigin.1

theorem Alike.mapOriginUrl (h : Alike l l') (gurl : GoogleUrl) : l.mapOriginUrl u gurl = l'.mapOriginUrl u gurl := by
  unfold DomainLawyer.mapOriginUrl
  split_ifs
  · rfl
  obtain ⟨hd, hd'⟩ | ⟨d, d', r, r', hd, hd', hview, hr, hr'⟩ := h.found gurl
  · rw [hd, hd']
  rw [hd, hd']
  dsimp only
  have hname : d.name = d'.name := congrArg DomainView.name hview
  have horigin := congrArg (fun v => v.originDomain.map Prod.snd) hview
  rw [map_snd_view, map_snd_view] at horigin
  obtain ⟨ho, ho'⟩ | ⟨o, o', od, od', ho, ho', _, hod, hod', hsame⟩ := h.pointer
    (fun o ho => pointers_of_deref h.closed hr (by simp [Domain.pointers, ho]))
    (fun o ho => pointers_of_deref h.closed' hr' (by simp [Domain.pointers, ho])) horigin
  · rw [ho, ho']
  · have hproxy := isProxyRef_of_view hview ho ho'
    rw [isProxyRef, isProxyRef, hod, hod'] at hproxy
    have hisProxy : od.isProxy = od'.isProxy := hproxy
    have hhost : od.hostHeader = od'.hostHeader := congrArg DomainView.hostHeader hsame
    have hmap := mapUrlHelper_congr (u := u) hname (congrArg DomainView.name hsame) gurl
    rw [ho, ho']
    dsimp only
    rw [hod, hod']
    dsimp only [bind, Option.bind]
    rw [hmap, hhost, hisProxy]

theorem Alike.mapToRewriteDomain (h : Alike l l') (hview : l.view d = l'.view d') (hr : l.deref r = some d)
    (hr' : l'.deref r' = some d') (hname : r.name = r'.name) (request : MappedRequest) :
    l.mapToRewriteDomain u r d request = l'.mapToRewriteDomain u r' d' request := by
  have hrewrite : d.rewriteDomain.map l.nameOf = d'.rewriteDomain.map l'.nameOf :=
    congrArg DomainView.rewriteDomain hview
  unfold DomainLawyer.mapToRewriteDomain
  obtain ⟨ho, ho'⟩ | ⟨o, o', od, od', ho, ho', hsameName, hod, hod', hsame⟩ := h.pointer
    (fun o ho => pointers_of_deref h.closed hr (by simp [Domain.pointers, ho]))
    (fun o ho => pointers_of_deref h.closed' hr' (by simp [Domain.pointers, ho])) hrewrite
  · rw [ho, ho']
  · have hod_name : od.name = od'.name := congrArg DomainView.name hsame
    have hmap := mapUrlHelper_congr (u := u) (congrArg DomainView.name hview) hod_name request.resolvedRequest
    have hself : o = r ↔ o' = r' := by
      have howner := (points_of_deref hod).1.1.trans (points_of_deref hr).1.1.symm
      have howner' := (points_of_deref hod').1.1.trans (points_of_deref hr').1.1.symm
      cases o
      cases o'
      cases r
      cases r'
      simp only [DomainRef.mk.injEq] at *
      subst hsameName hname
      exact ⟨fun h => ⟨howner', h.2⟩, fun h => ⟨howner, h.2⟩⟩
    rw [ho, ho']
    dsimp only
    rw [hod, hod']
    dsimp only [bind, Option.bind]
    rw [hmap]
    simp only [Domain.isWildcarded, hod_name, hself]
    rfl

theorem Alike.mapRequestToDomain (h : Alike l l') (request : GoogleUrl) (resourceUrl : GoogleString) :
    l.mapRequestToDomain u request resourceUrl = l'.mapRequestToDomain u request resourceUrl := by
  unfold DomainLawyer.mapRequestToDomain
  dsimp only
  have hfound := h.findDomain (u.resolve request resourceUrl)
  by_cases hvalid : (!request.isAnyValid) = true
  · rw [if_pos hvalid, if_pos hvalid]
  rw [if_neg hvalid, if_neg hvalid]
  by_cases hweb : (!(u.resolve request resourceUrl).isWebValid) = true
  · rw [if_pos hweb, if_pos hweb]
  rw [if_neg hweb, if_neg hweb]
  cases hr : l.findDomain (u.resolve request resourceUrl) with
  | none =>
    rw [hr] at hfound
    rw [Option.map_eq_none_iff.mp hfound.symm]
  | some r =>
    rw [hr] at hfound
    obtain ⟨r', hr', hname⟩ := Option.map_eq_some_iff.mp hfound.symm
    obtain ⟨d, d', hd, hd', hview⟩ := h.deref (points_findDomain h.closed.wildcards hr)
      (points_findDomain h.closed'.wildcards hr') hname.symm
    have hmap := fun request => h.mapToRewriteDomain (u := u) hview hd hd' hname.symm request
    have hauth : d.authorized = d'.authorized := congrArg DomainView.authorized hview
    have hdname : d.name = d'.name := congrArg DomainView.name hview
    rw [hr']
    dsimp only
    rw [hd, hd']
    dsimp only [bind, Option.bind]
    simp only [hmap, hauth, Domain.isWildcarded, hdname]
    rfl

theorem Alike.isProxyMapped (h : Alike l l') (gurl : GoogleUrl) : l.isProxyMapped gurl = l'.isProxyMapped gurl := by
  have hany : ∀ (l : DomainLawyer) (d : Domain), d.originDomain.any l.isProxyRef =
      (l.view d).originDomain.any Prod.fst := by
    intro l d
    rw [view, Option.any_map]
  unfold DomainLawyer.isProxyMapped
  obtain ⟨hd, hd'⟩ | ⟨d, d', _, _, hd, hd', hview, _, _⟩ := h.found gurl
  · rw [hd, hd', Option.any_none, Option.any_none]
  · rw [hd, hd', Option.any_some, Option.any_some, hany, hany, hview]

theorem Alike.shardDomain (h : Alike l l') (domainName : GoogleString) (hash : UInt32) :
    l.shardDomain u domainName hash = l'.shardDomain u domainName hash := by
  have hshard : ∀ (l : DomainLawyer), Closed l → ∀ (d : Domain) (r : DomainRef), l.deref r = some d → ∀ k : ℕ,
      (d.shards[k]?.bind fun shard => (l.deref shard).map Domain.name) = (l.view d).shards[k]? := by
    intro l hl d r hr k
    rw [view, List.getElem?_map]
    cases hk : d.shards[k]? with
    | none => rfl
    | some shard =>
      have hpoints := pointers_of_deref hl hr (o := shard)
        (by simp [Domain.pointers, List.mem_of_getElem? hk])
      obtain ⟨shardDomain, _, hderef⟩ := get_of_points hpoints
      rw [Option.bind_some, Option.map_some, nameOf, hderef]
      rfl
  unfold DomainLawyer.shardDomain
  obtain ⟨hd, hd'⟩ | ⟨d, d', r, r', hd, hd', hview, hr, hr'⟩ := h.found (u.parse (normalizeDomainName domainName))
  · rw [hd, hd']
    rfl
  · have hlength : d.shards.length = d'.shards.length := by
      have hshards := congrArg (fun v => v.shards.length) hview
      simp only [view, List.length_map] at hshards
      exact hshards
    rw [hd, hd']
    dsimp only [bind, Option.bind_some]
    rw [hshard l h.closed d r hr, hshard l' h.closed' d' r' hr', hview, hlength]

/-- A signature says what a lawyer answers, but for the order of the wildcards and the flag that
authorizes everything, and where its separators come up in no name and no host header. -/
theorem answers_eq_of_signature (h : Reachable u (fun _ _ => True) l) (h' : Reachable u (fun _ _ => True) l')
    (hsignature : l.signature = l'.signature) (hfree : SeparatorsFree l) (hfree' : SeparatorsFree l')
    (hwildcards : ∀ path, l.wildcardsFor path = l'.wildcardsFor path)
    (hall : l.authorizeAllDomains = l'.authorizeAllDomains) :
    (∀ request gurl, l.isDomainAuthorized request gurl = l'.isDomainAuthorized request gurl) ∧
      (∀ request resourceUrl, l.mapRequestToDomain u request resourceUrl =
        l'.mapRequestToDomain u request resourceUrl) ∧
      (∀ gurl, l.mapOriginUrl u gurl = l'.mapOriginUrl u gurl) ∧
      (∀ domainName hash, l.shardDomain u domainName hash = l'.shardDomain u domainName hash) ∧
      ∀ gurl, l.isProxyMapped gurl = l'.isProxyMapped gurl := by
  have hviews := views_eq_of_signature hsignature (plain_views h.closed hfree) (plain_views h'.closed hfree')
  have halike : Alike l l' := by
    refine ⟨?_, hwildcards, hall, h.closed, h'.closed⟩
    intro n
    rw [find?_views h.closed, find?_views h'.closed, hviews]
  exact ⟨halike.isDomainAuthorized, halike.mapRequestToDomain, halike.mapOriginUrl, halike.shardDomain,
    halike.isProxyMapped⟩

/-- The same domains, added in two orders. -/
theorem answers_eq_of_signature_domains :
    (call plainUrls (.addDomain (ascii "b.com")) (call plainUrls (.addDomain (ascii "a.com")) (new 0)).2).2.isProxyMapped
        (plainUrl (ascii "http://a.com/")) =
      (call plainUrls (.addDomain (ascii "a.com"))
        (call plainUrls (.addDomain (ascii "b.com")) (new 1)).2).2.isProxyMapped (plainUrl (ascii "http://a.com/")) :=
  (answers_eq_of_signature (.call _ (.call _ (.new 0))) (.call _ (.call _ (.new 1))) (by decide)
    ⟨by decide, by decide⟩ ⟨by decide, by decide⟩
    (by
      intro path
      rw [wildcardsFor, wildcardsFor, show (call plainUrls (.addDomain (ascii "b.com"))
          (call plainUrls (.addDomain (ascii "a.com")) (new 0)).2).2.wildcardedDomains = [] by decide,
        show (call plainUrls (.addDomain (ascii "a.com"))
          (call plainUrls (.addDomain (ascii "b.com")) (new 1)).2).2.wildcardedDomains = [] by decide])
    (by decide)).2.2.2.2 _

/-- `*` authorizes every URL, and its domain has the signature of one for `http` only. -/
theorem signature_of_other_answers : ∃ l l' : DomainLawyer, Reachable plainUrls (fun _ _ => True) l ∧
    Reachable plainUrls (fun _ _ => True) l' ∧ l.signature = l'.signature ∧
      l.isDomainAuthorized (plainUrl (ascii "http://w.com/")) (plainUrl (ascii "https://f.com/")) = true ∧
      l'.isDomainAuthorized (plainUrl (ascii "http://w.com/")) (plainUrl (ascii "https://f.com/")) = false :=
  ⟨(call plainUrls (.addDomain (ascii "*")) (new 0)).2, (call plainUrls (.addDomain (ascii "http://*/")) (new 1)).2,
    .call _ (.new 0), .call _ (.new 1), by decide, by decide, by decide⟩

end PageSpeed.Rewriter.DomainLawyer
