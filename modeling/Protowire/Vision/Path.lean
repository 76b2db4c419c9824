/-!
The names of resources: a path from a project down to the resource.
-/

namespace Protowire.Vision.Path

def location (project location : String) : String := s!"projects/{project}/locations/{location}"

def product (project location product : String) : String :=
  s!"{Path.location project location}/products/{product}"

def productSet (project location productSet : String) : String :=
  s!"{Path.location project location}/productSets/{productSet}"

def referenceImage (project location product referenceImage : String) : String :=
  s!"{Path.product project location product}/referenceImages/{referenceImage}"

end Protowire.Vision.Path
