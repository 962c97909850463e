import Stencil.Template.Lines

/-! # Service templates

    The five services of a module: one action on its records each. -/

namespace Stencil.Template

/-- The service that removes a record. -/
def deleteService : String := ofLines
  ["import prisma from \"../../database\";",
    "import AppError from \"../../error/AppError\";",
    "",
    "export const Delete««Model»»Service = async (id: number): Promise<void> => «",
    "  const ««model»» = await prisma.««model»».findUnique(« where: « id » »);",
    "",
    "  if (!««model»») «",
    "    throw new AppError(\"ERR_NO_««MODEL»»_FOUND\", 404);",
    "  »",
    "",
    "  await prisma.««model»».delete(« where: « id » »);",
    "»;",
    "",
    "export default Delete««Model»»Service;"]

/-- The service that lists records page by page; it declares the record type. -/
def listService : String := ofLines
  ["import prisma from \"../../database\";",
    "",
    "export interface ««Model»»Record «",
    "««fields»»»",
    "",
    "interface Request «",
    "  searchParam?: string;",
    "  pageNumber?: string | number;",
    "»",
    "",
    "interface Response «",
    "  ««modelPlural»»: ««Model»»Record[];",
    "  count: number;",
    "  hasMore: boolean;",
    "»",
    "",
    "const PAGE_SIZE = 20;",
    "",
    "export const List««Model»»Service = async («",
    "  pageNumber = \"1\",",
    "»: Request): Promise<Response> => «",
    "  const page = Number(pageNumber) || 1;",
    "  const offset = PAGE_SIZE * (page - 1);",
    "",
    "  const [««modelPlural»», count] = await prisma.$transaction([",
    "    prisma.««model»».findMany(«",
    "      skip: offset,",
    "      take: PAGE_SIZE,",
    "      orderBy: « id: \"desc\" »,",
    "    »),",
    "    prisma.««model»».count(),",
    "  ]);",
    "",
    "  const hasMore = count > offset + ««modelPlural»».length;",
    "",
    "  return « ««modelPlural»», count, hasMore »;",
    "»;",
    "",
    "export default List««Model»»Service;"]

/-- The service that finds one record. -/
def showService : String := ofLines
  ["import prisma from \"../../database\";",
    "import AppError from \"../../error/AppError\";",
    "",
    "export interface ««Model»»Record «",
    "««fields»»»",
    "",
    "export const Show««Model»»Service = async (id: number): Promise<««Model»»Record> => «",
    "  const ««model»» = await prisma.««model»».findUnique(« where: « id » »);",
    "",
    "  if (!««model»») «",
    "    throw new AppError(\"ERR_NO_««MODEL»»_FOUND\", 404);",
    "  »",
    "",
    "  return ««model»»;",
    "»;",
    "",
    "export default Show««Model»»Service;"]

/-- The service that adds a record. -/
def storeService : String := ofLines
  ["import prisma from \"../../database\";",
    "",
    "export interface Store««Model»»Data «",
    "««fields»»»",
    "",
    "export const Store««Model»»Service = async (data: Store««Model»»Data) => «",
    "  const ««model»» = await prisma.««model»».create(« data »);",
    "",
    "  return ««model»»;",
    "»;",
    "",
    "export default Store««Model»»Service;"]

/-- The service that changes a record. -/
def updateService : String := ofLines
  ["import prisma from \"../../database\";",
    "import AppError from \"../../error/AppError\";",
    "",
    "export interface Update««Model»»Data «",
    "««fields»»»",
    "",
    "interface Request «",
    "  id: number;",
    "  data: Partial<Update««Model»»Data>;",
    "»",
    "",
    "export const Update««Model»»Service = async (« id, data »: Request) => «",
    "  const exists = await prisma.««model»».findUnique(« where: « id » »);",
    "",
    "  if (!exists) «",
    "    throw new AppError(\"ERR_NO_««MODEL»»_FOUND\", 404);",
    "  »",
    "",
    "  const ««model»» = await prisma.««model»».update(« where: « id », data »);",
    "",
    "  return ««model»»;",
    "»;",
    "",
    "export default Update««Model»»Service;"]

end Stencil.Template
