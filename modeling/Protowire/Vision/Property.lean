import Protowire.Message.Access
import Protowire.Vision.Operation

/-!
The typed accessors of the service's messages. Every accessor goes by a number and a shape that are
written down for it, apart from the declarations in the schema: what keeps the two together is a
theorem and not part of the definitions.
-/

namespace Protowire.Vision

/-- What an accessor hands out and takes. -/
inductive Shape
  | one (s : Scalar)
  /-- The state of a batch. Numbers of no state read as the unspecified one. -/
  | state
  | message (t : TypeName)
  | many (s : Scalar)
  | messages (t : TypeName)
  deriving DecidableEq, Repr

namespace Shape

def kind : Shape → Kind
  | one s | many s => .scalar s
  | state => .enum batchState
  | message t | messages t => ref t

def repeated : Shape → Bool
  | many _ | messages _ => true
  | one _ | state | message _ => false

end Shape

/-- A field as its accessors know it. -/
structure Property where
  number : Nat
  name : String
  shape : Shape
  /-- Whether one may ask for its presence even if it is no message. -/
  asked : Bool := false
  deriving DecidableEq, Repr

namespace Property

def one (number : Nat) (name : String) (s : Scalar) : Property := ⟨number, name, .one s, false⟩

def presence (number : Nat) (name : String) (s : Scalar) : Property := ⟨number, name, .one s, true⟩

def state (number : Nat) (name : String) : Property := ⟨number, name, .state, false⟩

def message (number : Nat) (name : String) (t : TypeName) : Property :=
  ⟨number, name, .message t, false⟩

def many (number : Nat) (name : String) (s : Scalar) : Property := ⟨number, name, .many s, false⟩

def messages (number : Nat) (name : String) (t : TypeName) : Property :=
  ⟨number, name, .messages t, false⟩

/-- Whether there is such an accessor. -/
def offers (p : Property) : Accessor → Bool
  | .get | .set => true
  | .add => p.shape.repeated
  | .has => p.asked || p.shape.kind.isMessage && !p.shape.repeated
  | .clear => p.shape.kind.isMessage && !p.shape.repeated

/-- The field that the accessors take for declared. -/
def field (p : Property) : Field := ⟨p.number, p.name, p.shape.kind, p.shape.repeated, none⟩

def get (p : Property) (m : Message) : Option Value :=
  match p.shape with
  | .state => some (.enum ((BatchState.ofNumber? (m.int32 p.number)).getD .unspecified).number)
  | _ => p.field.read m

def set (S : Schema) (p : Property) (m : Message) (v : Value) : Message := p.field.write S m v

/-- Adds an element. Only messages are put in front of others. -/
def add (S : Schema) (p : Property) (m : Message) (v : Value) (index : Option Nat) : Message :=
  m.addItem S p.number v (if p.shape.kind.isMessage then index else none)

def has (p : Property) (m : Message) : Bool := m.has p.number

def clear (p : Property) (m : Message) : Message := m.clear p.number

end Property

namespace TypeName

/-- The type at a position of the schema. -/
def ofId? (t : TypeId) : Option TypeName := all[t]?

def properties : TypeName → List Property
  | .any => [.one 1 "type_url" .string, .one 2 "value" .bytes]
  | .empty => []
  | .timestamp => [.one 1 "seconds" .int64, .one 2 "nanos" .int32]
  | .fieldMask => [.many 1 "paths" .string]
  | .status => [.one 1 "code" .int32, .one 2 "message" .string, .messages 3 "details" .any]
  | .operation => [.one 1 "name" .string, .message 2 "metadata" .any, .one 3 "done" .bool,
    .message 4 "error" .status, .message 5 "response" .any]
  | .vertex => [.one 1 "x" .int32, .one 2 "y" .int32]
  | .normalizedVertex => [.one 1 "x" .float, .one 2 "y" .float]
  | .boundingPoly => [.messages 1 "vertices" .vertex,
    .messages 2 "normalized_vertices" .normalizedVertex]
  | .position => [.one 1 "x" .float, .one 2 "y" .float, .one 3 "z" .float]
  | .productSearchParams => [.one 6 "product_set" .string, .many 7 "product_categories" .string,
    .one 8 "filter" .string, .message 9 "bounding_poly" .boundingPoly]
  | .productSearchResults => [.message 2 "index_time" .timestamp,
    .messages 5 "results" .searchResult, .messages 6 "product_grouped_results" .groupedResult]
  | .searchResult => [.message 1 "product" .product, .one 2 "score" .float, .one 3 "image" .string]
  | .objectLabel => [.one 1 "mid" .string, .one 2 "language_code" .string, .one 3 "name" .string,
    .one 4 "score" .float]
  | .groupedResult => [.message 1 "bounding_poly" .boundingPoly,
    .messages 2 "results" .searchResult, .messages 3 "object_annotations" .objectLabel]
  | .product => [.one 1 "name" .string, .one 2 "display_name" .string, .one 3 "description" .string,
    .one 4 "product_category" .string, .messages 5 "product_labels" .keyValue]
  | .keyValue => [.one 1 "key" .string, .one 2 "value" .string]
  | .productSet => [.one 1 "name" .string, .one 2 "display_name" .string,
    .message 3 "index_time" .timestamp, .message 4 "index_error" .status]
  | .referenceImage => [.one 1 "name" .string, .one 2 "uri" .string,
    .messages 3 "bounding_polys" .boundingPoly]
  | .createProductRequest => [.one 1 "parent" .string, .message 2 "product" .product,
    .one 3 "product_id" .string]
  | .listProductsRequest => [.one 1 "parent" .string, .one 2 "page_size" .int32,
    .one 3 "page_token" .string]
  | .listProductsResponse => [.messages 1 "products" .product, .one 2 "next_page_token" .string]
  | .getProductRequest => [.one 1 "name" .string]
  | .updateProductRequest => [.message 1 "product" .product, .message 2 "update_mask" .fieldMask]
  | .deleteProductRequest => [.one 1 "name" .string]
  | .createProductSetRequest => [.one 1 "parent" .string, .message 2 "product_set" .productSet,
    .one 3 "product_set_id" .string]
  | .listProductSetsRequest => [.one 1 "parent" .string, .one 2 "page_size" .int32,
    .one 3 "page_token" .string]
  | .listProductSetsResponse => [.messages 1 "product_sets" .productSet,
    .one 2 "next_page_token" .string]
  | .getProductSetRequest => [.one 1 "name" .string]
  | .updateProductSetRequest => [.message 1 "product_set" .productSet,
    .message 2 "update_mask" .fieldMask]
  | .deleteProductSetRequest => [.one 1 "name" .string]
  | .createReferenceImageRequest => [.one 1 "parent" .string,
    .message 2 "reference_image" .referenceImage, .one 3 "reference_image_id" .string]
  | .deleteReferenceImageRequest => [.one 1 "name" .string]
  | .listReferenceImagesRequest => [.one 1 "parent" .string, .one 2 "page_size" .int32,
    .one 3 "page_token" .string]
  | .listReferenceImagesResponse => [.messages 1 "reference_images" .referenceImage,
    .one 2 "page_size" .int32, .one 3 "next_page_token" .string]
  | .getReferenceImageRequest => [.one 1 "name" .string]
  | .addProductToProductSetRequest => [.one 1 "name" .string, .one 2 "product" .string]
  | .removeProductFromProductSetRequest => [.one 1 "name" .string, .one 2 "product" .string]
  | .listProductsInProductSetRequest => [.one 1 "name" .string, .one 2 "page_size" .int32,
    .one 3 "page_token" .string]
  | .listProductsInProductSetResponse => [.messages 1 "products" .product,
    .one 2 "next_page_token" .string]
  | .importProductSetsGcsSource => [.one 1 "csv_file_uri" .string]
  | .importProductSetsInputConfig => [.message 1 "gcs_source" .importProductSetsGcsSource]
  | .importProductSetsRequest => [.one 1 "parent" .string,
    .message 2 "input_config" .importProductSetsInputConfig]
  | .importProductSetsResponse => [.messages 1 "reference_images" .referenceImage,
    .messages 2 "statuses" .status]
  | .batchOperationMetadata => [.state 1 "state", .message 2 "submit_time" .timestamp,
    .message 3 "end_time" .timestamp]
  | .productSetPurgeConfig => [.one 1 "product_set_id" .string]
  | .purgeProductsRequest => [.one 1 "parent" .string,
    .message 2 "product_set_purge_config" .productSetPurgeConfig,
    .presence 3 "delete_orphan_products" .bool, .one 4 "force" .bool]

/-- The accessor with this name, and its field. -/
def accessor? (t : TypeName) (name : String) : Option (Accessor × Property) :=
  Accessor.all.findSome? fun a =>
    (t.properties.find? fun p => p.offers a && a.verb ++ p.name = name).map (a, ·)

/-- The number of the member of the type's oneof that is set; 0 if none is, or there is no oneof. -/
def oneofCase (S : Schema) : TypeName → Message → Nat
  | .operation, m => (Operation.resultCase S m).number
  | .importProductSetsInputConfig, m => (sourceCase S m).number
  | .purgeProductsRequest, m => (targetCase S m).number
  | _, _ => 0

end TypeName

/-! ### Messages from parts -/

variable (S : Schema)

/-- A message with its first two fields set. -/
def pair (t : TypeName) (v w : Value) : Message :=
  ((Message.empty t.id).put S 1 v).put S 2 w

def Timestamp.at (seconds : Int64) (nanos : Int32) : Message :=
  pair S .timestamp (.int64 seconds) (.int32 nanos)

def Vertex.at (x y : Int32) : Message := pair S .vertex (.int32 x) (.int32 y)

def NormalizedVertex.at (x y : UInt32) : Message := pair S .normalizedVertex (.float x) (.float y)

def KeyValue.pair (key value : String) : Message :=
  Vision.pair S .keyValue (.string key) (.string value)

def FieldMask.fromPaths (paths : List String) : Message :=
  (Message.empty TypeName.fieldMask.id).putItems S 1 (paths.map .string)

end Protowire.Vision
