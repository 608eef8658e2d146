import Goka.Context

/-!
# Header maps and header records

A Go map is a reference, and `Merged` and the options of a context write into maps. `HeaderMaps` is
the heap as far as header maps are concerned: a map is named by the number of maps made before it.
On the wire headers are a list of records, in the order in which `ToSarama` visits the map.
-/

namespace Goka

namespace Headers

abbrev Records := List (String × Bytes)

def toSarama (h : Headers) : Records :=
  match h with
  | none => []
  | some h => h.entries.map fun entry => (entry.1, entry.2)

def fromSarama (saramaHeaders : Records) : GoMap String Bytes :=
  saramaHeaders.foldl (fun headers h => headers.insert h.1 h.2) ∅

end Headers

abbrev HeaderMaps := List (GoMap String Bytes)

/-- A nil map is `none`. -/
abbrev HeaderRef := Option Nat

namespace HeaderMaps

variable (maps : HeaderMaps)

def read (ref : HeaderRef) : Headers := ref.bind fun r => maps[r]?

/-- `for k, v := range source { target[k] = v }`. -/
def assign (target : Nat) (source : HeaderRef) : HeaderMaps :=
  match read maps source with
  | none => maps
  | some source =>
      source.entries.foldl (fun maps entry => maps.modify target fun m => m.insert entry.1 entry.2)
        maps

def merged (h : HeaderRef) (headers : List HeaderRef) : HeaderMaps × HeaderRef :=
  let target := maps.length
  let maps := assign (maps ++ [∅]) target h
  let maps := headers.foldl (fun maps hs => assign maps target hs) maps
  (maps, if (read maps (some target)).all (fun m => m.entries = []) then none else some target)

/-- `WithCtxEmitHeaders`, applied to options that have collected `emitHeaders`. -/
def withCtxEmitHeaders (emitHeaders hdr : HeaderRef) : HeaderMaps × HeaderRef :=
  match emitHeaders with
  | none => (assign (maps ++ [∅]) maps.length hdr, some maps.length)
  | some target => (assign maps target hdr, some target)

def applyOptions (options : List HeaderRef) : HeaderMaps × HeaderRef :=
  options.foldl (fun opts hdr => withCtxEmitHeaders opts.1 opts.2 hdr) (maps, none)

end HeaderMaps

end Goka
