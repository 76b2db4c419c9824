import Protowire.Registry

/-!
The message types of the product-search service and of the common types that it uses. A type's
position in the schema is that of its name in the list of all names.
-/

namespace Protowire.Vision

inductive TypeName
  | any | empty | timestamp | fieldMask | status | operation | vertex | normalizedVertex
  | boundingPoly | position | productSearchParams | productSearchResults | searchResult
  | objectLabel | groupedResult | product | keyValue | productSet | referenceImage
  | createProductRequest | listProductsRequest | listProductsResponse | getProductRequest
  | updateProductRequest | deleteProductRequest | createProductSetRequest
  | listProductSetsRequest | listProductSetsResponse | getProductSetRequest
  | updateProductSetRequest | deleteProductSetRequest | createReferenceImageRequest
  | deleteReferenceImageRequest | listReferenceImagesRequest | listReferenceImagesResponse
  | getReferenceImageRequest | addProductToProductSetRequest
  | removeProductFromProductSetRequest | listProductsInProductSetRequest
  | listProductsInProductSetResponse | importProductSetsGcsSource
  | importProductSetsInputConfig | importProductSetsRequest | importProductSetsResponse
  | batchOperationMetadata | productSetPurgeConfig | purgeProductsRequest
  deriving DecidableEq, Repr

namespace TypeName

def all : List TypeName :=
  [.any, .empty, .timestamp, .fieldMask, .status, .operation, .vertex, .normalizedVertex,
    .boundingPoly, .position, .productSearchParams, .productSearchResults, .searchResult,
    .objectLabel, .groupedResult, .product, .keyValue, .productSet, .referenceImage,
    .createProductRequest, .listProductsRequest, .listProductsResponse, .getProductRequest,
    .updateProductRequest, .deleteProductRequest, .createProductSetRequest,
    .listProductSetsRequest, .listProductSetsResponse, .getProductSetRequest,
    .updateProductSetRequest, .deleteProductSetRequest, .createReferenceImageRequest,
    .deleteReferenceImageRequest, .listReferenceImagesRequest, .listReferenceImagesResponse,
    .getReferenceImageRequest, .addProductToProductSetRequest,
    .removeProductFromProductSetRequest, .listProductsInProductSetRequest,
    .listProductsInProductSetResponse, .importProductSetsGcsSource,
    .importProductSetsInputConfig, .importProductSetsRequest, .importProductSetsResponse,
    .batchOperationMetadata, .productSetPurgeConfig, .purgeProductsRequest]

/-- The type's position in the schema. -/
def id (t : TypeName) : TypeId := t.ctorIdx

end TypeName

/-- The states of a batch operation. -/
def batchState : EnumType :=
  ⟨"google.cloud.vision.v1.BatchOperationMetadata.State",
    [⟨"STATE_UNSPECIFIED", 0⟩, ⟨"PROCESSING", 1⟩, ⟨"SUCCESSFUL", 2⟩, ⟨"FAILED", 3⟩,
      ⟨"CANCELLED", 4⟩]⟩

/-- The kind of a field of this message type. -/
def ref (t : TypeName) : Kind := .message t.id

def TypeName.definition : TypeName → MessageType
  | .any => ⟨"google.protobuf.Any", [.one 1 "type_url" .string, .one 2 "value" .bytes], []⟩
  | .empty => ⟨"google.protobuf.Empty", [], []⟩
  | .timestamp => ⟨"google.protobuf.Timestamp",
    [.one 1 "seconds" .int64, .one 2 "nanos" .int32], []⟩
  | .fieldMask => ⟨"google.protobuf.FieldMask", [.many 1 "paths" .string], []⟩
  | .status => ⟨"google.rpc.Status",
    [.one 1 "code" .int32, .one 2 "message" .string, .many 3 "details" (ref .any)], []⟩
  | .operation => ⟨"google.longrunning.Operation",
    [.one 1 "name" .string, .one 2 "metadata" (ref .any), .one 3 "done" .bool,
      .choice 4 "error" (ref .status) 0,
      .choice 5 "response" (ref .any) 0], [⟨"result", [4, 5]⟩]⟩
  | .vertex => ⟨"google.cloud.vision.v1.Vertex", [.one 1 "x" .int32, .one 2 "y" .int32], []⟩
  | .normalizedVertex => ⟨"google.cloud.vision.v1.NormalizedVertex",
    [.one 1 "x" .float, .one 2 "y" .float], []⟩
  | .boundingPoly => ⟨"google.cloud.vision.v1.BoundingPoly",
    [.many 1 "vertices" (ref .vertex),
      .many 2 "normalized_vertices" (ref .normalizedVertex)], []⟩
  | .position => ⟨"google.cloud.vision.v1.Position",
    [.one 1 "x" .float, .one 2 "y" .float, .one 3 "z" .float], []⟩
  | .productSearchParams => ⟨"google.cloud.vision.v1.ProductSearchParams",
    [.one 6 "product_set" .string, .many 7 "product_categories" .string, .one 8 "filter" .string,
      .one 9 "bounding_poly" (ref .boundingPoly)], []⟩
  | .productSearchResults => ⟨"google.cloud.vision.v1.ProductSearchResults",
    [.one 2 "index_time" (ref .timestamp), .many 5 "results" (ref .searchResult),
      .many 6 "product_grouped_results" (ref .groupedResult)], []⟩
  | .searchResult => ⟨"google.cloud.vision.v1.ProductSearchResults.Result",
    [.one 1 "product" (ref .product), .one 2 "score" .float, .one 3 "image" .string], []⟩
  | .objectLabel => ⟨"google.cloud.vision.v1.ProductSearchResults.ObjectAnnotation",
    [.one 1 "mid" .string, .one 2 "language_code" .string, .one 3 "name" .string,
      .one 4 "score" .float], []⟩
  | .groupedResult => ⟨"google.cloud.vision.v1.ProductSearchResults.GroupedResult",
    [.one 1 "bounding_poly" (ref .boundingPoly), .many 2 "results" (ref .searchResult),
      .many 3 "object_annotations" (ref .objectLabel)], []⟩
  | .product => ⟨"google.cloud.vision.v1.Product",
    [.one 1 "name" .string, .one 2 "display_name" .string, .one 3 "description" .string,
      .one 4 "product_category" .string, .many 5 "product_labels" (ref .keyValue)], []⟩
  | .keyValue => ⟨"google.cloud.vision.v1.Product.KeyValue",
    [.one 1 "key" .string, .one 2 "value" .string], []⟩
  | .productSet => ⟨"google.cloud.vision.v1.ProductSet",
    [.one 1 "name" .string, .one 2 "display_name" .string, .one 3 "index_time" (ref .timestamp),
      .one 4 "index_error" (ref .status)], []⟩
  | .referenceImage => ⟨"google.cloud.vision.v1.ReferenceImage",
    [.one 1 "name" .string, .one 2 "uri" .string,
      .many 3 "bounding_polys" (ref .boundingPoly)], []⟩
  | .createProductRequest => ⟨"google.cloud.vision.v1.CreateProductRequest",
    [.one 1 "parent" .string, .one 2 "product" (ref .product), .one 3 "product_id" .string], []⟩
  | .listProductsRequest => ⟨"google.cloud.vision.v1.ListProductsRequest",
    [.one 1 "parent" .string, .one 2 "page_size" .int32, .one 3 "page_token" .string], []⟩
  | .listProductsResponse => ⟨"google.cloud.vision.v1.ListProductsResponse",
    [.many 1 "products" (ref .product), .one 2 "next_page_token" .string], []⟩
  | .getProductRequest => ⟨"google.cloud.vision.v1.GetProductRequest",
    [.one 1 "name" .string], []⟩
  | .updateProductRequest => ⟨"google.cloud.vision.v1.UpdateProductRequest",
    [.one 1 "product" (ref .product), .one 2 "update_mask" (ref .fieldMask)], []⟩
  | .deleteProductRequest => ⟨"google.cloud.vision.v1.DeleteProductRequest",
    [.one 1 "name" .string], []⟩
  | .createProductSetRequest => ⟨"google.cloud.vision.v1.CreateProductSetRequest",
    [.one 1 "parent" .string, .one 2 "product_set" (ref .productSet),
      .one 3 "product_set_id" .string], []⟩
  | .listProductSetsRequest => ⟨"google.cloud.vision.v1.ListProductSetsRequest",
    [.one 1 "parent" .string, .one 2 "page_size" .int32, .one 3 "page_token" .string], []⟩
  | .listProductSetsResponse => ⟨"google.cloud.vision.v1.ListProductSetsResponse",
    [.many 1 "product_sets" (ref .productSet), .one 2 "next_page_token" .string], []⟩
  | .getProductSetRequest => ⟨"google.cloud.vision.v1.GetProductSetRequest",
    [.one 1 "name" .string], []⟩
  | .updateProductSetRequest => ⟨"google.cloud.vision.v1.UpdateProductSetRequest",
    [.one 1 "product_set" (ref .productSet), .one 2 "update_mask" (ref .fieldMask)], []⟩
  | .deleteProductSetRequest => ⟨"google.cloud.vision.v1.DeleteProductSetRequest",
    [.one 1 "name" .string], []⟩
  | .createReferenceImageRequest => ⟨"google.cloud.vision.v1.CreateReferenceImageRequest",
    [.one 1 "parent" .string, .one 2 "reference_image" (ref .referenceImage),
      .one 3 "reference_image_id" .string], []⟩
  | .deleteReferenceImageRequest => ⟨"google.cloud.vision.v1.DeleteReferenceImageRequest",
    [.one 1 "name" .string], []⟩
  | .listReferenceImagesRequest => ⟨"google.cloud.vision.v1.ListReferenceImagesRequest",
    [.one 1 "parent" .string, .one 2 "page_size" .int32, .one 3 "page_token" .string], []⟩
  | .listReferenceImagesResponse => ⟨"google.cloud.vision.v1.ListReferenceImagesResponse",
    [.many 1 "reference_images" (ref .referenceImage), .one 2 "page_size" .int32,
      .one 3 "next_page_token" .string], []⟩
  | .getReferenceImageRequest => ⟨"google.cloud.vision.v1.GetReferenceImageRequest",
    [.one 1 "name" .string], []⟩
  | .addProductToProductSetRequest => ⟨"google.cloud.vision.v1.AddProductToProductSetRequest",
    [.one 1 "name" .string, .one 2 "product" .string], []⟩
  | .removeProductFromProductSetRequest =>
    ⟨"google.cloud.vision.v1.RemoveProductFromProductSetRequest",
      [.one 1 "name" .string, .one 2 "product" .string], []⟩
  | .listProductsInProductSetRequest => ⟨"google.cloud.vision.v1.ListProductsInProductSetRequest",
    [.one 1 "name" .string, .one 2 "page_size" .int32, .one 3 "page_token" .string], []⟩
  | .listProductsInProductSetResponse => ⟨"google.cloud.vision.v1.ListProductsInProductSetResponse",
    [.many 1 "products" (ref .product), .one 2 "next_page_token" .string], []⟩
  | .importProductSetsGcsSource => ⟨"google.cloud.vision.v1.ImportProductSetsGcsSource",
    [.one 1 "csv_file_uri" .string], []⟩
  | .importProductSetsInputConfig => ⟨"google.cloud.vision.v1.ImportProductSetsInputConfig",
    [.choice 1 "gcs_source" (ref .importProductSetsGcsSource) 0], [⟨"source", [1]⟩]⟩
  | .importProductSetsRequest => ⟨"google.cloud.vision.v1.ImportProductSetsRequest",
    [.one 1 "parent" .string, .one 2 "input_config" (ref .importProductSetsInputConfig)], []⟩
  | .importProductSetsResponse => ⟨"google.cloud.vision.v1.ImportProductSetsResponse",
    [.many 1 "reference_images" (ref .referenceImage), .many 2 "statuses" (ref .status)], []⟩
  | .batchOperationMetadata => ⟨"google.cloud.vision.v1.BatchOperationMetadata",
    [.one 1 "state" (.enum batchState), .one 2 "submit_time" (ref .timestamp),
      .one 3 "end_time" (ref .timestamp)], []⟩
  | .productSetPurgeConfig => ⟨"google.cloud.vision.v1.ProductSetPurgeConfig",
    [.one 1 "product_set_id" .string], []⟩
  | .purgeProductsRequest => ⟨"google.cloud.vision.v1.PurgeProductsRequest",
    [.choice 2 "product_set_purge_config" (ref .productSetPurgeConfig) 0,
      .choice 3 "delete_orphan_products" .bool 0, .one 1 "parent" .string,
      .one 4 "force" .bool], [⟨"target", [2, 3]⟩]⟩

def schema : Schema := ⟨(TypeName.all.map TypeName.definition).toArray⟩

/-- The types that are declared inside others. They are registered with the fields that hold them. -/
def TypeName.nested : List TypeName := [.searchResult, .objectLabel, .groupedResult, .keyValue]

/-- All the types by their names. -/
def registry : Registry :=
  Registry.ofTypes schema ((TypeName.all.filter (· ∉ TypeName.nested)).map TypeName.id)

theorem all_getElem?_id (t : TypeName) : TypeName.all[t.id]? = some t := by cases t <;> rfl

theorem schema_type_id (t : TypeName) : schema.type t.id = t.definition := by
  simp [Schema.type, schema, all_getElem?_id]

end Protowire.Vision
