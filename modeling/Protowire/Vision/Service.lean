import Protowire.Vision.Status
import Protowire.Message.Encode

/-!
The product-search service: its methods, a server that hands decoded requests to a handler, and a
client that calls a method over a channel. A channel takes bytes to a path and brings bytes or a
status back; a server is one. Handlers and channels may keep state.
-/

namespace Protowire.Vision

def serviceName : String := "google.cloud.vision.v1.ProductSearch"

/-- The names of the types that a long-running method packs into its operation. -/
structure LongRunning where
  response : String
  metadata : String
  deriving DecidableEq, Repr

structure Method where
  name : String
  input : TypeName
  output : TypeName
  longRunning : Option LongRunning := none
  deriving DecidableEq, Repr

namespace Method

/-- Where calls of the method go. -/
def path (m : Method) : String := s!"/{serviceName}/{m.name}"

def importResult : LongRunning :=
  ⟨"google.cloud.vision.v1.ImportProductSetsResponse",
    "google.cloud.vision.v1.BatchOperationMetadata"⟩

def purgeResult : LongRunning :=
  ⟨"google.protobuf.Empty", "google.cloud.vision.v1.BatchOperationMetadata"⟩

/-- The methods of the service in the order of their declaration. -/
def all : List Method :=
  [⟨"CreateProductSet", .createProductSetRequest, .productSet, none⟩,
    ⟨"ListProductSets", .listProductSetsRequest, .listProductSetsResponse, none⟩,
    ⟨"GetProductSet", .getProductSetRequest, .productSet, none⟩,
    ⟨"UpdateProductSet", .updateProductSetRequest, .productSet, none⟩,
    ⟨"DeleteProductSet", .deleteProductSetRequest, .empty, none⟩,
    ⟨"CreateProduct", .createProductRequest, .product, none⟩,
    ⟨"ListProducts", .listProductsRequest, .listProductsResponse, none⟩,
    ⟨"GetProduct", .getProductRequest, .product, none⟩,
    ⟨"UpdateProduct", .updateProductRequest, .product, none⟩,
    ⟨"DeleteProduct", .deleteProductRequest, .empty, none⟩,
    ⟨"CreateReferenceImage", .createReferenceImageRequest, .referenceImage, none⟩,
    ⟨"DeleteReferenceImage", .deleteReferenceImageRequest, .empty, none⟩,
    ⟨"ListReferenceImages", .listReferenceImagesRequest, .listReferenceImagesResponse, none⟩,
    ⟨"GetReferenceImage", .getReferenceImageRequest, .referenceImage, none⟩,
    ⟨"AddProductToProductSet", .addProductToProductSetRequest, .empty, none⟩,
    ⟨"RemoveProductFromProductSet", .removeProductFromProductSetRequest, .empty, none⟩,
    ⟨"ListProductsInProductSet", .listProductsInProductSetRequest,
      .listProductsInProductSetResponse, none⟩,
    ⟨"ImportProductSets", .importProductSetsRequest, .operation, some importResult⟩,
    ⟨"PurgeProducts", .purgeProductsRequest, .operation, some purgeResult⟩]

def byPath? (path : String) : Option Method := all.find? (·.path = path)

def byName? (name : String) : Option Method := all.find? (·.name = name)

/-- What a server does at a path: the path gives a method, and the name of that method what is done. -/
def served? (path : String) : Option Method := (byPath? path).bind (byName? ·.name)

end Method

/-- Why a call failed. -/
inductive RpcError
  | status (status : Message)
  | decode (cause : DecodeError)
  | unknownMethod (path : String)

namespace RpcError

def message : RpcError → String
  | status s => s!"rpc failed: {Status.display s}"
  | decode cause => s!"malformed message: {cause.message}"
  | unknownMethod path => "unknown method `" ++ path ++ "`"

/-- The status that a server reports. -/
def toStatus (S : Schema) : RpcError → Message
  | status s => s
  | decode cause => Status.withCode S .invalidArgument cause.message
  | unknownMethod path => Status.withCode S .unimplemented s!"unknown method {path}"

end RpcError

/-- Answers a method's requests with a reply or a status. -/
abbrev Handler (σ : Type) := Method → Message → StateM σ (Except Message Message)

/-- Takes a request to a path and brings back the reply or a status. -/
abbrev Channel (σ : Type) := String → List UInt8 → StateM σ (Except Message (List UInt8))

variable {σ : Type}

/-- Implements nothing. -/
def Handler.unimplemented (S : Schema) : Handler σ := fun method _ =>
  return .error (Status.withCode S .unimplemented s!"{method.name} is not implemented")

namespace Server

variable (S : Schema) (handler : Handler σ)

/-- Decodes a request for the method at a path, lets the handler answer, and encodes the reply. -/
def dispatch (path : String) (request : List UInt8) : StateM σ (Except RpcError (List UInt8)) :=
  match Method.served? path with
  | none => return .error (.unknownMethod path)
  | some method =>
    match Message.decode S method.input.id .default request with
    | .error e => return .error (.decode e)
    | .ok m => do
      match ← handler method m with
      | .ok reply => return .ok (reply.encode S)
      | .error status => return .error (.status status)

def channel : Channel σ := fun path request => do
  match ← dispatch S handler path request with
  | .ok reply => return .ok reply
  | .error e => return .error (e.toStatus S)

end Server

/-- Calls a method over a channel. -/
def Client.call (S : Schema) (channel : Channel σ) (method : Method) (request : Message) :
    StateM σ (Except RpcError Message) := do
  match ← channel method.path (request.encode S) with
  | .error status => return .error (.status status)
  | .ok reply =>
    match Message.decode S method.output.id .default reply with
    | .ok m => return .ok m
    | .error e => return .error (.decode e)

end Protowire.Vision
