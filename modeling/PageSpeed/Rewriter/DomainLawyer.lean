import PageSpeed.Base.StringUtil
import PageSpeed.Rewriter.Domain

/-!
The operations and lookups of `net/instaweb/rewriter/domain_lawyer.cc`. URLs are those of a
library, which `UrlLib` stands for.
-/

namespace PageSpeed.Rewriter

structure GoogleUrl where
  isAnyValid : Bool
  isWebValid : Bool
  spec : GoogleString
  origin : GoogleString
  allExceptLeaf : GoogleString
  pathSansLeaf : GoogleString
  pathAndLeaf : GoogleString
  hostAndPort : GoogleString

structure UrlLib where
  parse : GoogleString → GoogleUrl
  resolve : GoogleUrl → GoogleString → GoogleUrl

namespace DomainLawyer

def addDomain (l : DomainLawyer) (domainName : GoogleString) : Bool × DomainLawyer :=
  ((l.addDomainHelper domainName true true false).1.isSome, (l.addDomainHelper domainName true true false).2)

def addKnownDomain (l : DomainLawyer) (domainName : GoogleString) : Bool × DomainLawyer :=
  ((l.addDomainHelper domainName false false false).1.isSome, (l.addDomainHelper domainName false false false).2)

def isSchemeSafeToMapTo (domainName : GoogleString) (allowHttpsScheme : Bool) : Bool :=
  findPiece (ascii "://") domainName = none || (ascii "http://").isPrefixOf domainName ||
    (allowHttpsScheme && (ascii "https://").isPrefixOf domainName)

def authorize (l : DomainLawyer) (r : DomainRef) : DomainLawyer := l.modify r fun d => { d with authorized := true }

structure Mapping where
  lawyer : DomainLawyer
  ret : Bool
  mappedADomain : Bool

section

variable (urls : UrlLib)

def sameOrigin (name name' : GoogleString) : Bool := (urls.parse name).origin = (urls.parse name').origin

/-- One turn of the loop of `MapDomainHelper`. -/
def mapFrom (setDomainFn : SetDomainFn) (allowWildcards : Bool) (toDomain : DomainRef) (m : Mapping)
    (domainName : GoogleString) : Mapping :=
  match m.lawyer.addDomainHelper domainName false false false with
  | (none, l) => { m with lawyer := l }
  | (some fromDomain, l) =>
    if sameOrigin urls toDomain.name fromDomain.name then { m with lawyer := l.authorize fromDomain }
    else if !allowWildcards && isWildcardName fromDomain.name then { m with lawyer := l, ret := false }
    else
      let l := { l with authorizeAllDomains := l.authorizeAllDomains || domainName = ascii "*" }
      let (ok, l) := setDomainFn (l.authorize fromDomain) fromDomain toDomain
      ⟨l, m.ret && ok, m.mappedADomain || ok⟩

def mapDomainHelper (l : DomainLawyer) (toDomainName commaSeparatedFromDomains hostHeader : GoogleString)
    (setDomainFn : SetDomainFn) (allowWildcards allowMapToHttps authorizeToDomain : Bool) : Bool × DomainLawyer :=
  if !isSchemeSafeToMapTo toDomainName allowMapToHttps then (false, l)
  else
    match l.addDomainHelper toDomainName false false false with
    | (none, l) => (false, l)
    | (some toDomain, l) =>
      if isWildcardName toDomain.name then (false, l)
      else
        let l := if authorizeToDomain then l.authorize toDomain else l
        let domains := splitStringPieceToVector commaSeparatedFromDomains [44] true
        let m := domains.foldl (mapFrom urls setDomainFn allowWildcards toDomain) ⟨l, true, false⟩
        let l := if m.mappedADomain then m.lawyer.modify toDomain fun d => { d with hostHeader := hostHeader }
          else m.lawyer
        (m.ret && m.mappedADomain, l)

def rewritable : Bool × DomainLawyer → Bool × DomainLawyer
  | (result, l) => (result, { l with canRewriteDomains := l.canRewriteDomains || result })

def addRewriteDomainMapping (l : DomainLawyer) (toDomainName commaSeparatedFromDomains : GoogleString) :
    Bool × DomainLawyer :=
  rewritable (l.mapDomainHelper urls toDomainName commaSeparatedFromDomains [] setRewriteDomain true true true)

def domainNameToTwoProtocols (domainName : GoogleString) : Option (GoogleString × GoogleString) :=
  let httpUrl := normalizeDomainName domainName
  if (ascii "http:").isPrefixOf httpUrl then some (httpUrl, ascii "https" ++ httpUrl.drop 4) else none

def twoProtocolDomainHelper (l : DomainLawyer) (toDomainName fromDomainName hostHeader : GoogleString)
    (setDomainFn : SetDomainFn) (authorize : Bool) : Bool × DomainLawyer :=
  match domainNameToTwoProtocols toDomainName, domainNameToTwoProtocols fromDomainName with
  | some (httpToUrl, httpsToUrl), some (httpFromUrl, httpsFromUrl) =>
    match l.mapDomainHelper urls httpToUrl httpFromUrl hostHeader setDomainFn false false authorize with
    | (false, l) => (false, l)
    | (true, l) => l.mapDomainHelper urls httpsToUrl httpsFromUrl hostHeader setDomainFn false true authorize
  | _, _ => (false, l)

def addTwoProtocolRewriteDomainMapping (l : DomainLawyer) (toDomainName fromDomainName : GoogleString) :
    Bool × DomainLawyer :=
  rewritable (l.twoProtocolDomainHelper urls toDomainName fromDomainName [] setRewriteDomain true)

def addOriginDomainMapping (l : DomainLawyer)
    (toDomainName commaSeparatedFromDomains hostHeader : GoogleString) : Bool × DomainLawyer :=
  l.mapDomainHelper urls toDomainName commaSeparatedFromDomains hostHeader setOriginDomain true true false

def addTwoProtocolOriginDomainMapping (l : DomainLawyer) (toDomainName fromDomainName hostHeader : GoogleString) :
    Bool × DomainLawyer :=
  l.twoProtocolDomainHelper urls toDomainName fromDomainName hostHeader setOriginDomain false

def addProxyDomainMapping (l : DomainLawyer) (proxyDomainName originDomainName toDomainName : GoogleString) :
    Bool × DomainLawyer :=
  if toDomainName.isEmpty then
    l.mapDomainHelper urls originDomainName proxyDomainName [] setProxyDomain false true true
  else
    let (proxied, l) := l.mapDomainHelper urls originDomainName toDomainName [] setProxyDomain false true true
    let (rewritten, l) := l.mapDomainHelper urls toDomainName proxyDomainName [] setRewriteDomain false true true
    let (mapped, l) := l.mapDomainHelper urls originDomainName proxyDomainName [] setOriginDomain false true true
    (proxied && rewritten && mapped, l)

def addShard (l : DomainLawyer) (shardDomainName commaSeparatedShards : GoogleString) : Bool × DomainLawyer :=
  rewritable (l.mapDomainHelper urls shardDomainName commaSeparatedShards [] (setShardFrom true) false true true)

end

def setAuthorizeAllDomains (l : DomainLawyer) (v : Bool) : DomainLawyer := { l with authorizeAllDomains := v }

def setProxySuffix (l : DomainLawyer) (suffix : GoogleString) : DomainLawyer := { l with proxySuffix := suffix }

def cloneAndAdd (l : DomainLawyer) (src : Domain) : Option DomainRef × DomainLawyer :=
  match l.addDomainHelper src.name false src.authorized src.isProxy with
  | (none, l) => (none, l)
  | (some dst, l) => (some dst, l.modify dst fun d => { d with hostHeader := src.hostHeader })

def withClone (src : DomainLawyer) (r : DomainRef) (f : DomainLawyer → DomainRef → DomainLawyer)
    (l : DomainLawyer) : DomainLawyer :=
  match src.deref r with
  | none => l.crash
  | some d =>
    match l.cloneAndAdd d with
    | (none, l) => l.crash
    | (some dst, l) => f l dst

def withCloneOf (src : DomainLawyer) (pointer : Option DomainRef) (f : DomainLawyer → DomainRef → DomainLawyer)
    (l : DomainLawyer) : DomainLawyer :=
  match pointer with
  | none => l
  | some r => withClone src r f l

/-- One turn of the loop of `Merge` over the domains of the source. -/
def mergeDomain (src l : DomainLawyer) (srcDomain : Domain) : DomainLawyer :=
  match l.cloneAndAdd srcDomain with
  | (none, l) => l.crash
  | (some dstDomain, l) =>
    let l := withCloneOf src srcDomain.rewriteDomain (fun l dst => (l.setRewriteDomain dstDomain dst).2) l
    let l := withCloneOf src srcDomain.originDomain (fun l dst => (l.setOriginDomain dstDomain dst).2) l
    srcDomain.shards.foldl (fun l r => withClone src r (fun l dst => (l.setShardFrom false dst dstDomain).2) l) l

def mergedWildcard (l : DomainLawyer) (existing : List DomainRef) (r : DomainRef) : Option DomainRef :=
  match l.domainMap.get r.name with
  | none => none
  | some _ => if (⟨l.id, r.name⟩ : DomainRef) ∈ existing then none else some ⟨l.id, r.name⟩

def mergedWildcards (src l : DomainLawyer) (existing : List DomainRef) : List DomainRef :=
  src.wildcardedDomains.filterMap (l.mergedWildcard existing)

def merge (l src : DomainLawyer) : DomainLawyer :=
  let existing := l.wildcardedDomains
  let l := src.domainMap.entries.foldl (fun l e => mergeDomain src l e.2) l
  { l with
    wildcardedDomains := existing ++ mergedWildcards src l existing
    canRewriteDomains := l.canRewriteDomains || src.canRewriteDomains
    authorizeAllDomains := l.authorizeAllDomains || src.authorizeAllDomains
    proxySuffix := if src.proxySuffix.isEmpty then l.proxySuffix else src.proxySuffix }

/-- The search for a path among the names, one component shorter at each turn: what was found,
and the path that was searched for last. The components are those before the one that the path
ends with, the last one first. -/
def findPath (l : DomainLawyer) : List GoogleString → GoogleString → Option DomainRef × GoogleString
  | [], path => (none, path)
  | component :: components, path =>
    if (l.domainMap.get path).isSome then (some ⟨l.id, path⟩, path)
    else if components.isEmpty then (none, path)
    else findPath l components (path.take (path.length - (component.length + 1)))

def findWildcard (l : DomainLawyer) (path : GoogleString) : Option DomainRef :=
  l.wildcardedDomains.find? fun r => ((l.deref r).map fun d => d.isMatch path).getD false

def findAlongPath (l : DomainLawyer) (gurl : GoogleUrl) : Option DomainRef × GoogleString :=
  let components := splitStringPieceToVector gurl.pathSansLeaf [47] false
  if 2 ≤ components.length ∧ components.head? = some [] ∧ components.getLast? = some [] then
    findPath l components.dropLast.reverse gurl.allExceptLeaf
  else (none, gurl.allExceptLeaf)

def findDomain (l : DomainLawyer) (gurl : GoogleUrl) : Option DomainRef :=
  let (domain, path) := l.findAlongPath gurl
  domain.or (l.findWildcard path)

def domainAt (l : DomainLawyer) (gurl : GoogleUrl) : Option Domain := (l.findDomain gurl).bind l.deref

section

variable (urls : UrlLib)

/-- `none` is a failed `CHECK`. -/
def mapUrlHelper (fromDomain toDomain : Domain) (gurl : GoogleUrl) : Option (Bool × GoogleUrl) :=
  if toDomain.isWildcarded then none
  else
    let fromDomainPath := (urls.parse fromDomain.name).pathSansLeaf
    let relUrl := ascii "./" ++ gurl.pathAndLeaf.drop fromDomainPath.length
    let mappedGurl := urls.resolve (urls.parse toDomain.name) relUrl
    some (mappedGurl.isWebValid, mappedGurl)

structure MappedRequest where
  ret : Bool
  mappedDomainName : GoogleString
  resolvedRequest : GoogleUrl

/-- The rewrite target of the domain that a request was resolved to; `none` is a failed `CHECK`. -/
def mapToRewriteDomain (l : DomainLawyer) (r : DomainRef) (resolved : Domain) (request : MappedRequest) :
    Option MappedRequest :=
  match resolved.rewriteDomain with
  | none => some request
  | some mapped => do
    let mappedDomain ← l.deref mapped
    if mappedDomain.isWildcarded then none
    else if mapped = r then none
    else do
      let (ret, mappedRequest) ← mapUrlHelper urls resolved mappedDomain request.resolvedRequest
      return ⟨ret, mappedDomain.name, if ret then mappedRequest else request.resolvedRequest⟩

def mapRequestToDomain (l : DomainLawyer) (originalRequest : GoogleUrl) (resourceUrl : GoogleString) :
    Option MappedRequest :=
  if !originalRequest.isAnyValid then none
  else
    let originalOrigin := urls.parse originalRequest.origin
    let resolvedRequest := urls.resolve originalRequest resourceUrl
    if !resolvedRequest.isWebValid then some ⟨false, [], resolvedRequest⟩
    else
      let resolvedOrigin := urls.parse resolvedRequest.origin
      match l.findDomain resolvedRequest with
      | none =>
        if resolvedOrigin.spec = originalOrigin.spec then some ⟨true, resolvedOrigin.spec, resolvedRequest⟩
        else some ⟨false, [], resolvedRequest⟩
      | some r => do
        let resolvedDomain ← l.deref r
        if resolvedOrigin.spec = originalOrigin.spec then
          mapToRewriteDomain urls l r resolvedDomain ⟨true, resolvedOrigin.spec, resolvedRequest⟩
        else if resolvedDomain.authorized then
          mapToRewriteDomain urls l r resolvedDomain
            ⟨true, if resolvedDomain.isWildcarded then resolvedOrigin.spec else resolvedDomain.name, resolvedRequest⟩
        else some ⟨false, [], resolvedRequest⟩

def isDomainAuthorized (l : DomainLawyer) (originalRequest domainToCheck : GoogleUrl) : Bool :=
  l.authorizeAllDomains ||
    (domainToCheck.isWebValid &&
      ((originalRequest.isWebValid && originalRequest.origin = domainToCheck.origin) ||
        (l.domainAt domainToCheck).any Domain.authorized))

structure MappedOrigin where
  out : GoogleString
  hostHeader : GoogleString
  isProxy : Bool
  deriving DecidableEq

/-- The URL that a resource is fetched from, its host header and whether it is proxied; the
outer `none` is a failed `CHECK`, the inner one a URL that is not valid. -/
def mapOriginUrl (l : DomainLawyer) (gurl : GoogleUrl) : Option (Option MappedOrigin) :=
  if !gurl.isWebValid then some none
  else
    match l.domainAt gurl with
    | none => some (some ⟨gurl.spec, gurl.hostAndPort, false⟩)
    | some domain =>
      match domain.originDomain with
      | none => some (some ⟨gurl.spec, gurl.hostAndPort, false⟩)
      | some r => do
        let originDomain ← l.deref r
        let (ret, mappedGurl) ← mapUrlHelper urls domain originDomain gurl
        let hostHeader := if originDomain.hostHeader.isEmpty then gurl.hostAndPort else originDomain.hostHeader
        return some ⟨if ret then mappedGurl.spec else gurl.spec, hostHeader, originDomain.isProxy⟩

def shardDomain (l : DomainLawyer) (domainName : GoogleString) (hash : UInt32) : Option GoogleString := do
  let domain ← l.domainAt (urls.parse (normalizeDomainName domainName))
  let shard ← domain.shards[hash.toNat % domain.shards.length]?
  (l.deref shard).map Domain.name

end

def isProxyMapped (l : DomainLawyer) (gurl : GoogleUrl) : Bool :=
  (l.domainAt gurl).any fun domain => domain.originDomain.any l.isProxyRef

def refSignature (l : DomainLawyer) (mark : GoogleString) (r : DomainRef) : GoogleString :=
  mark ++ ((l.deref r).map Domain.name).getD [] ++ ascii "_"

def domainSignature (l : DomainLawyer) (d : Domain) : GoogleString :=
  d.name ++ ascii "_" ++ ascii (if d.authorized then "_a" else "_n") ++ ascii "_" ++
    (d.rewriteDomain.map (l.refSignature (ascii "R:"))).getD [] ++
    (if d.hostHeader.isEmpty then [] else ascii "H:" ++ d.hostHeader ++ ascii "|") ++
    (d.originDomain.map fun r => l.refSignature (ascii (if l.isProxyRef r then "P:" else "O:")) r).getD [] ++
    d.shards.flatMap (l.refSignature (ascii "S:"))

def signature (l : DomainLawyer) : GoogleString :=
  l.domainMap.entries.flatMap (fun e => ascii "D:" ++ l.domainSignature e.2 ++ ascii "-") ++
    if l.proxySuffix.isEmpty then [] else ascii ",PS:" ++ l.proxySuffix

end DomainLawyer

end PageSpeed.Rewriter
